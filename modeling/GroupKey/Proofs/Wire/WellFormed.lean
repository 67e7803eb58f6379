import GroupKey.Proofs.Agreement.Acceptance
import GroupKey.Proofs.Wire.Groups

/-!
# Well-formed messages

Not every message has a frame that is read again: lengths that follow from the size tier of a group
are not written, so a message whose parts disagree with each other is not what its frame says. This
file says which messages are free of that, and shows that nothing else is ever read. Those who
handle a message that was read may therefore index by the lengths that it implies.

* `Message.IsWellFormed` — the parts of a message agree, and its payload has a length that four
  bytes can hold.
* `Read.Ensures` — what holds of a value that was read, and of the number of bytes read for it.
* `Message.isWellFormed_of_decode` — a frame that is accepted holds a well-formed message.
* `Message.fitsTier_of_decode` — what a heartbeat says of tiers is right, whatever its points are.

A frame states the length of its payload, and what is read has to fill it. So the bound on the
payload comes from counting: every reader takes as many bytes as the writer gives for the value
read.
-/

namespace GroupKey

variable {S : Suite}

/-! ## The shape of messages -/

/-- A fingerprint of version zero carries no hash. -/
def Fingerprint.IsCanonical (f : Fingerprint) : Prop := f.version = 0 → f.digest = .zero

/-- Both components lie in their subgroups. -/
structure EncryptionKey.IsValid (G : S.Subgroups) (k : EncryptionKey S) : Prop where
  lambda : G.mem2 k.lambda
  mu : G.mem1 k.mu

/-- The snapshot names an existing tier, twice the same, and has a bitmap for the slots of it. -/
structure Snapshot.FitsTier (p : Parameters S) (g : Snapshot S) : Prop where
  tier : g.tier = g.id.tier
  length_slots : ∃ scale, p.scale g.tier = .ok scale ∧
    g.slots.bytes.length = Bitmap.byteCount scale

/-- The snapshot fits its tier, and its name and its key are valid. -/
structure Snapshot.IsWellFormed (G : S.Subgroups) (p : Parameters S) (g : Snapshot S) : Prop where
  id : g.id.IsWellFormed
  fits : g.FitsTier p
  key : g.key.IsValid G

/-- The proof names an existing tier and has an entry for every slot but its own. -/
structure JoinProof.IsWellFormed (G : S.Subgroups) (p : Parameters S) (proof : JoinProof S) :
    Prop where
  group : proof.group.IsWellFormed
  fits : ∃ scale, p.scale proof.tier = .ok scale ∧ proof.Fits scale
  u : G.mem2 proof.u
  entries : ∀ x, some x ∈ proof.z → G.mem1 x

/-- All parts of the ciphertext are for messages of one length. -/
structure Ciphertext.IsWellFormed (G : S.Subgroups) (c : Ciphertext S) : Prop where
  c1 : G.mem2 c.c1
  c2 : ∀ part ∈ c.parts, G.mem2 part.c2
  c3 : ∀ part ∈ c.parts, part.c3.length = c.messageLength

/-- There is one part of the ciphertext for every group. -/
structure Distribution.IsWellFormed (G : S.Subgroups) (d : Distribution S) : Prop where
  fingerprint : d.fingerprint.IsCanonical
  groups : ∀ g ∈ d.groups, g.IsWellFormed
  parts : d.ciphertext.parts.length = d.groups.length
  ciphertext : d.ciphertext.IsWellFormed G

theorem JoinProof.fits_iff {proof : JoinProof S} {scale : Nat} :
    proof.Fits scale ↔ proof.z.length = scale ∧ proof.slot.toNat < scale ∧
      ∀ j < scale, (proof.z[j]? = some none ↔ j = proof.slot.toNat) := by
  constructor
  · rintro ⟨hlength, hslot, hself, hothers⟩
    refine ⟨hlength, hslot, fun j hj => ⟨fun hnone => ?_, ?_⟩⟩
    · by_contra hne
      have h := hothers j hj hne
      rw [JoinProof.entry?, hnone] at h
      simp at h
    · rintro rfl
      rw [JoinProof.entry?, List.getElem?_eq_getElem (hlength ▸ hslot)] at hself
      rw [List.getElem?_eq_getElem (hlength ▸ hslot), Option.some.injEq]
      exact hself
  · rintro ⟨hlength, hslot, hnone⟩
    refine ⟨hlength, hslot, ?_, fun j hj hne => ?_⟩
    · rw [JoinProof.entry?, (hnone _ hslot).2 rfl]
      rfl
    · have hz : ¬proof.z[j]? = some none := fun h => hne ((hnone j hj).1 h)
      rw [List.getElem?_eq_getElem (hlength ▸ hj), Option.some.injEq] at hz
      rw [JoinProof.entry?, List.getElem?_eq_getElem (hlength ▸ hj)]
      exact Option.isSome_iff_ne_none.2 hz

namespace Message

/-- The parts of the message agree with each other and with the parameters. -/
def IsShaped (G : S.Subgroups) (p : Parameters S) : Message S → Prop
  | heartbeat m => m.accepted.IsCanonical ∧ ∀ g ∈ m.groups, g.IsWellFormed G p
  | heartbeatAck _ => True
  | notifyPosition m => m.group.IsWellFormed
  | join m => m.proof.IsWellFormed G p
  | joinAck m => m.group.IsWellFormed ∧ G.mem1 m.share ∧ m.key.IsValid G
  | keyEncapNotify _ => True
  | keyEncap m => m.IsWellFormed G
  | keyUpdate m => m.IsWellFormed G
  | keyUpdateAck m => m.fingerprint.IsCanonical

/-- The message has a shape that its frame tells of, and a payload whose length its frame can
state. -/
structure IsWellFormed (G : S.Subgroups) (p : Parameters S) (m : Message S) : Prop where
  shape : m.IsShaped G p
  length_payload : m.payload.length < UInt32.size

end Message

/-! ## The lengths of written fields -/

namespace Wire

@[simp] theorem length_time (t : Timestamp) : (time t).length = 8 := by simp [time]

@[simp] theorem length_prefixed (bytes : Bytes) : (prefixed bytes).length = 2 + bytes.length := by
  simp [prefixed]

theorem length_point1 {G : S.Subgroups} {x : S.G1} (hx : G.mem1 x) :
    (point1 x).length = 2 + Read.pointLength1 := by
  rw [point1, length_prefixed, G.length_write1 x hx, Read.pointLength1]

theorem length_point2 {G : S.Subgroups} {x : S.G2} (hx : G.mem2 x) :
    (point2 x).length = 2 + Read.pointLength2 := by
  rw [point2, length_prefixed, G.length_write2 x hx, Read.pointLength2]

end Wire

namespace Read

variable {α β : Type}

/-! ## Values and the bytes read for them -/

/-- Whatever the reader gives, together with the number of bytes that it took, satisfies `Q`. -/
def Ensures (read : Read α) (Q : α → Nat → Prop) : Prop :=
  ∀ c a c', read c = .ok a c' → ∃ n, c.rest.length = n + c'.rest.length ∧ Q a n

theorem Ensures.bind {x : Read α} {f : α → Read β} {P : α → Nat → Prop} {Q : β → Nat → Prop}
    (hx : Ensures x P) (hf : ∀ a n, P a n → Ensures (f a) fun b m => Q b (n + m)) :
    Ensures (x >>= f) Q := by
  intro c b c' hb
  obtain ⟨a, c₁, ha, hb⟩ := bind_eq_ok hb
  obtain ⟨n, hn, hP⟩ := hx c a c₁ ha
  obtain ⟨m, hm, hQ⟩ := hf a n hP c₁ b c' hb
  exact ⟨n + m, by omega, hQ⟩

theorem Ensures.pure {a : α} {Q : α → Nat → Prop} (h : Q a 0) : Ensures (pure a) Q := by
  intro c b c' hb
  obtain ⟨rfl, rfl⟩ := EStateM.Result.ok.inj hb
  exact ⟨0, (Nat.zero_add _).symm, h⟩

theorem Ensures.throw (e : WireError) (Q : α → Nat → Prop) : Ensures (throw e) Q := by
  intro c b c' hb
  rw [throw_apply] at hb
  simp at hb

theorem Ensures.get {f : Cursor → Read α} {Q : α → Nat → Prop} (h : ∀ c, Ensures (f c) Q) :
    Ensures (get >>= f) Q := by
  intro c b c' hb
  rw [get_bind] at hb
  exact h c c b c' hb

theorem Ensures.map {x : Read α} {f : α → β} {P : α → Nat → Prop} {Q : β → Nat → Prop}
    (hx : Ensures x P) (h : ∀ a n, P a n → Q (f a) n) :
    Ensures (x >>= fun a => Pure.pure (f a)) Q :=
  hx.bind fun a n hP => .pure (h a n hP)

/-! ## Fields -/

theorem ensures_bytes (k : Nat) : Ensures (bytes k) fun _ n => n = k := by
  intro c a c' ha
  simp only [bytes] at ha
  split at ha
  next h =>
    obtain ⟨-, rfl⟩ := EStateM.Result.ok.inj ha
    refine ⟨k, ?_, rfl⟩
    rw [List.length_take] at h
    simp only [List.length_drop]
    omega
  next h => simp at ha

theorem ensures_uint16 : Ensures uint16 fun _ n => n = 2 := (ensures_bytes 2).map fun _ _ h => h

theorem ensures_uint32 : Ensures uint32 fun _ n => n = 4 := (ensures_bytes 4).map fun _ _ h => h

theorem ensures_uint64 : Ensures uint64 fun _ n => n = 8 := (ensures_bytes 8).map fun _ _ h => h

theorem ensures_time : Ensures time fun _ n => n = 8 := ensures_uint64.map fun _ _ h => h

theorem ensures_prefixedExact (k : Nat) : Ensures (prefixedExact k) fun _ n => n = 2 + k := by
  have hprefixed : Ensures prefixed fun bs n => n = 2 + bs.length := by
    refine ensures_uint16.bind fun length n hn => (ensures_bytes length.toNat).map ?_
    intro bs m hm
    rw [bs.property, hn, hm]
  refine hprefixed.bind fun bs n hn => ?_
  split
  next h => exact .pure (by omega)
  next h => exact .throw _ _

theorem ensures_groupId :
    Ensures groupId fun g n => g.IsWellFormed ∧ n = g.toBytes.length := by
  refine (ensures_bytes GroupId.size).bind fun bs n hn => ?_
  simp only
  split
  next h => exact .pure ⟨h, by rw [GroupId.length_toBytes, hn, Nat.add_zero]⟩
  next h => exact .throw _ _

section Points

variable (G : S.Subgroups)

theorem ensures_point1 : Ensures (point1 S) fun x n => G.mem1 x ∧ n = (Wire.point1 x).length := by
  refine (ensures_prefixedExact pointLength1).bind fun bs n hn => ?_
  cases hread : S.read1? bs with
  | none => exact .throw _ _
  | some x =>
    have hx := G.mem1_of_read1? bs x hread
    exact .pure ⟨hx, by rw [Wire.length_point1 hx, hn, Nat.add_zero]⟩

theorem ensures_point2 : Ensures (point2 S) fun x n => G.mem2 x ∧ n = (Wire.point2 x).length := by
  refine (ensures_prefixedExact pointLength2).bind fun bs n hn => ?_
  cases hread : S.read2? bs with
  | none => exact .throw _ _
  | some x =>
    have hx := G.mem2_of_read2? bs x hread
    exact .pure ⟨hx, by rw [Wire.length_point2 hx, hn, Nat.add_zero]⟩

theorem ensures_encryptionKey :
    Ensures encryptionKey fun k n => k.IsValid G ∧ n = (Wire.encryptionKey k).length := by
  refine (ensures_point2 G).bind fun lambda n hlambda => (ensures_point1 G).map fun mu m hmu => ?_
  refine ⟨⟨hlambda.1, hmu.1⟩, ?_⟩
  rw [Wire.encryptionKey, List.length_append, hlambda.2, hmu.2]

end Points

theorem ensures_fingerprint :
    Ensures fingerprint fun f n => f.IsCanonical ∧ n = (Wire.fingerprint f).length := by
  refine ensures_uint32.bind fun version n hn => ensures_time.bind fun issued m hm => ?_
  by_cases hv : 0 < version
  · rw [if_pos hv]
    refine (ensures_bytes 32).map fun hash k hk => ⟨?_, ?_⟩
    · intro h0
      exact absurd hv (by rw [show version = 0 from h0]; decide)
    · simp [Wire.fingerprint, hv, hash.property, hn, hm, hk]
  · rw [if_neg hv]
    exact .pure ⟨fun _ => rfl, by simp [Wire.fingerprint, hv, hn, hm]⟩

/-! ## Rows of values -/

theorem ensures_times {read : Read α} {P : α → Prop} {write : α → Bytes}
    (h : Ensures read fun a n => P a ∧ n = (write a).length) (count : Nat) :
    Ensures (times read count) fun as n =>
      as.length = count ∧ (∀ a ∈ as, P a) ∧ n = (as.flatMap write).length := by
  induction count with
  | zero => exact .pure ⟨rfl, by simp, rfl⟩
  | succ count ih =>
    refine h.bind fun a n ha => ih.map fun as m has => ?_
    obtain ⟨hP, hn⟩ := ha
    obtain ⟨hlength, hall, hm⟩ := has
    refine ⟨by rw [List.length_cons, hlength], ?_, ?_⟩
    · exact List.forall_mem_cons.2 ⟨hP, hall⟩
    · rw [List.flatMap_cons, List.length_append, hn, hm]

theorem ensures_untilEnd {read : Read α} {P : α → Prop} {write : α → Bytes}
    (h : Ensures read fun a n => P a ∧ n = (write a).length) (limit : Nat) :
    Ensures (untilEnd read limit) fun as n =>
      (∀ a ∈ as, P a) ∧ n = (as.flatMap write).length := by
  induction limit with
  | zero => exact .pure ⟨by simp, rfl⟩
  | succ limit ih =>
    refine .get fun c => ?_
    split
    · exact .pure ⟨by simp, rfl⟩
    · refine h.bind fun a n ha => ih.map fun as m has => ⟨?_, ?_⟩
      · exact List.forall_mem_cons.2 ⟨ha.1, has.1⟩
      · rw [List.flatMap_cons, List.length_append, ha.2, has.2]

/-! ## Records -/

section Records

variable (G : S.Subgroups) (p : Parameters S)

theorem ensures_snapshot :
    Ensures (snapshot p) fun g n => g.IsWellFormed G p ∧ n = (Wire.snapshot g).length := by
  refine .get fun start => ensures_uint32.bind fun declared n hn => ensures_uint32.bind
    fun memberCount m hm => ensures_groupId.bind fun id k hk => ensures_time.bind
      fun expiry l hl => ?_
  cases hs : p.scale id.tier with
  | error e => exact .throw _ _
  | ok scale =>
    refine (ensures_bytes (Bitmap.byteCount scale)).bind fun slots i hi =>
      (ensures_encryptionKey G).bind fun key j hj => .get fun stop => ?_
    simp only
    split
    next h =>
      refine .pure ⟨⟨hk.1, ⟨rfl, scale, hs, slots.property⟩, hj.1⟩, ?_⟩
      rw [hn, hm, hk.2, hl, hi, hj.2, Wire.snapshot]
      simp only [List.length_append, Bytes.length_ofUInt32, Wire.length_time, slots.property]
      omega
    next h => exact .throw _ _

theorem entries_succ (slot j count : Nat) :
    entries (S := S) slot j (count + 1) =
      (if j = slot then pure none else some <$> point1 S) >>= fun z =>
        entries slot (j + 1) count >>= fun zs => pure (z :: zs) := by
  rw [entries]
  split <;> rfl

/-- The entries of a join proof, from slot `j` on, are there for all slots but `slot`. -/
theorem ensures_entries (slot count j : Nat) :
    Ensures (entries slot j count) fun zs n =>
      zs.length = count ∧ (∀ x, some x ∈ zs → G.mem1 x) ∧
      (∀ k < count, zs[k]? = some none ↔ j + k = slot) ∧
      n = (zs.flatMap fun z => (z.map Wire.point1).getD []).length := by
  induction count generalizing j with
  | zero => exact .pure ⟨rfl, by simp, by simp, rfl⟩
  | succ count ih =>
    have hentry : Ensures (if j = slot then pure none else some <$> point1 S) fun z n =>
        (∀ x, z = some x → G.mem1 x) ∧ (z = none ↔ j = slot) ∧
        n = ((z.map Wire.point1).getD []).length := by
      by_cases hj : j = slot
      · rw [if_pos hj]
        exact .pure ⟨by simp, by simp [hj], rfl⟩
      · rw [if_neg hj]
        refine (ensures_point1 G).map fun x n hx => ⟨?_, by simp [hj], by simp [hx.2]⟩
        intro y hy
        rw [← Option.some.inj hy]
        exact hx.1
    rw [entries_succ]
    refine hentry.bind fun z n hz => (ih (j + 1)).map fun zs m hzs => ?_
    obtain ⟨hmem, hnone, hn⟩ := hz
    obtain ⟨hlength, hall, hslots, hm⟩ := hzs
    refine ⟨by rw [List.length_cons, hlength], ?_, ?_, ?_⟩
    · intro x hx
      rcases List.mem_cons.1 hx with hx | hx
      · exact hmem x hx.symm
      · exact hall x hx
    · intro k hk
      cases k with
      | zero => simpa using hnone
      | succ k =>
        rw [List.getElem?_cons_succ, hslots k (by omega)]
        omega
    · rw [List.flatMap_cons, List.length_append, hn, hm]

theorem ensures_joinProof :
    Ensures (joinProof p) fun proof n =>
      proof.IsWellFormed G p ∧ n = (Wire.joinProof proof).length := by
  refine ensures_uint32.bind fun keyId n hn => ensures_uint32.bind fun rawTier m hm =>
    ensures_uint32.bind fun slot k hk => ?_
  by_cases hraw : UInt16.size ≤ rawTier.toNat
  · rw [if_pos hraw]
    exact .throw _ _
  rw [if_neg hraw]
  cases hs : p.scale (.ofNat rawTier.toNat) with
  | error e =>
    simp only [hs]
    exact .throw _ _
  | ok scale =>
    simp only [hs]
    by_cases hslot : scale ≤ slot.toNat
    · rw [if_pos hslot]
      exact .throw _ _
    rw [if_neg hslot]
    refine ensures_groupId.bind fun group l hgroup => (ensures_point2 G).bind fun u i hu =>
      (ensures_entries G slot.toNat scale 0).map fun z j hz => ?_
    obtain ⟨hlength, hmem, hnone, hj⟩ := hz
    have hfits : JoinProof.Fits ⟨keyId, .ofNat rawTier.toNat, slot, group, u, z⟩ scale :=
      JoinProof.fits_iff.2 ⟨hlength, Nat.lt_of_not_le hslot, by simpa using hnone⟩
    refine ⟨⟨hgroup.1, ⟨scale, hs, hfits⟩, hu.1, hmem⟩, ?_⟩
    rw [hn, hm, hk, hgroup.2, hu.2, hj, Wire.joinProof]
    simp only [List.length_append, Bytes.length_ofUInt32]
    omega

theorem ensures_ciphertext (count : Nat) :
    Ensures (ciphertext count) fun c n =>
      c.parts.length = count ∧ c.IsWellFormed G ∧ n = (Wire.ciphertext c).length := by
  refine ensures_uint32.bind fun length n hn => (ensures_point2 G).bind fun c1 m hc1 => ?_
  have hpart : Ensures (ciphertextPart length.toNat) fun part n =>
      (G.mem2 part.c2 ∧ part.c3.length = length.toNat) ∧
      n = (Wire.point2 part.c2 ++ part.c3).length := by
    refine (ensures_point2 G).bind fun c2 n hc2 => (ensures_bytes length.toNat).map ?_
    intro c3 m hm
    refine ⟨⟨hc2.1, c3.property⟩, ?_⟩
    rw [List.length_append, hc2.2, hm, c3.property]
  refine (ensures_times hpart count).map fun parts k hparts => ?_
  obtain ⟨hlength, hall, hk⟩ := hparts
  refine ⟨hlength, ⟨hc1.1, fun part hp => (hall part hp).1, fun part hp => ?_⟩, ?_⟩
  · cases parts with
    | nil => simp at hp
    | cons first parts =>
      rw [(hall part hp).2]
      exact (hall first List.mem_cons_self).2.symm
  · rw [hn, hc1.2, hk, Wire.ciphertext]
    simp only [List.length_append, Bytes.length_ofUInt32]
    omega

theorem ensures_distribution :
    Ensures distribution fun d n =>
      d.IsWellFormed G ∧ n = (Wire.distribution d).length := by
  refine ensures_uint32.bind fun count n hn => ensures_uint32.bind fun pid m hm =>
    ensures_fingerprint.bind fun f k hf => (ensures_times ensures_groupId count.toNat).bind
      fun groups l hgroups => (ensures_ciphertext G count.toNat).map fun c j hc => ?_
  obtain ⟨hlength, htags, hl⟩ := hgroups
  obtain ⟨hparts, hshape, hj⟩ := hc
  refine ⟨⟨hf.1, htags, by rw [hparts, hlength], hshape⟩, ?_⟩
  rw [hn, hm, hf.2, hl, hj, Wire.distribution]
  simp only [List.length_append, Bytes.length_ofUInt32]
  omega

theorem ensures_phase : Ensures phase fun _ n => n = 4 := by
  refine ensures_uint32.bind fun code n hn => ?_
  split
  · exact .pure hn
  · exact .throw _ _

/-- **A payload that is read is that of a message in shape**, and is taken whole. -/
theorem ensures_payload (k : MessageKind) :
    Ensures (payload p k) fun m n => m.IsShaped G p ∧ n = m.payload.length := by
  cases k with
  | heartbeat =>
    refine ensures_uint32.bind fun seq n hn => ensures_fingerprint.bind fun f m hf =>
      .get fun c => (ensures_untilEnd (ensures_snapshot G p) _).map fun groups k hgroups => ?_
    refine ⟨⟨hf.1, hgroups.1⟩, ?_⟩
    rw [hn, hf.2, hgroups.2, Message.payload]
    simp only [List.length_append, Bytes.length_ofUInt32]
    omega
  | heartbeatAck =>
    refine ensures_phase.bind fun phase n hn => ensures_uint32.bind fun pid m hm =>
      ensures_uint32.map fun seq k hk => ⟨trivial, ?_⟩
    simp [Message.payload, hn, hm, hk]
  | notifyPosition =>
    refine ensures_groupId.bind fun group n hgroup => ensures_uint32.bind fun slot m hm =>
      ensures_uint32.map fun pid k hk => ⟨hgroup.1, ?_⟩
    simp [Message.payload, hgroup.2, hm, hk]
  | join =>
    refine ensures_uint32.bind fun pid n hn =>
      (ensures_joinProof G p).map fun proof m hproof => ⟨hproof.1, ?_⟩
    simp [Message.payload, hn, hproof.2]
  | joinAck =>
    refine ensures_groupId.bind fun group n hgroup => ensures_uint32.bind fun slot m hm =>
      ensures_uint32.bind fun keyId k hk => (ensures_point1 G).bind fun share l hshare =>
        (ensures_encryptionKey G).map fun key j hkey => ⟨⟨hgroup.1, hshare.1, hkey.1⟩, ?_⟩
    rw [hgroup.2, hm, hk, hshare.2, hkey.2, Message.payload]
    simp only [List.length_append, Bytes.length_ofUInt32]
    omega
  | keyEncapNotify =>
    refine ensures_uint32.bind fun pid n hn => ensures_uint32.bind fun keyLength m hm =>
      ensures_uint32.map fun version k hk => ⟨trivial, ?_⟩
    simp [Message.payload, hn, hm, hk]
  | keyEncap => exact (ensures_distribution G).map fun d n hd => hd
  | keyUpdate => exact (ensures_distribution G).map fun d n hd => hd
  | keyUpdateAck =>
    refine ensures_uint32.bind fun pid n hn =>
      ensures_fingerprint.map fun f m hf => ⟨hf.1, ?_⟩
    simp [Message.payload, hn, hf.2]

end Records

/-! ### Snapshots, whatever points are -/

theorem Always.throw (e : WireError) (P : α → Prop) : Always (throw e) P := by
  intro c a c' ha
  rw [throw_apply] at ha
  simp at ha

theorem always_snapshot (p : Parameters S) : Always (snapshot p) (·.FitsTier p) := by
  refine .bind fun start => .bind fun declared => .bind fun memberCount => .bind fun id => .bind
    fun expiry => ?_
  cases hs : p.scale id.tier with
  | error e => exact .throw _ _
  | ok scale =>
    refine .bind fun slots => .bind fun key => .bind fun stop => ?_
    simp only
    split
    · exact .pure ⟨rfl, scale, hs, slots.property⟩
    · exact .throw _ _

theorem always_untilEnd {read : Read α} {P : α → Prop} (h : Always read P) (limit : Nat) :
    Always (untilEnd read limit) fun as => ∀ a ∈ as, P a := by
  induction limit with
  | zero => exact .pure (by simp)
  | succ limit ih =>
    refine .bind fun c => ?_
    split
    · exact .pure (by simp)
    · intro c as c' has
      obtain ⟨a, c₁, ha, has⟩ := bind_eq_ok has
      obtain ⟨rest, c₂, hrest, has⟩ := bind_eq_ok has
      obtain rfl := pure_eq_ok has
      exact List.forall_mem_cons.2 ⟨h _ _ _ ha, ih _ _ _ hrest⟩

end Read

namespace Message

/-- An accepted frame is a kind, the length of what follows, and a payload to the end. -/
theorem exists_of_decode {p : Parameters S} {frame : Bytes} {m : Message S}
    (h : decode p frame = .ok m) :
    ∃ k c₁ declared c₂ c₃, Read.kind (Cursor.ofBytes frame) = .ok k c₁ ∧
      Read.uint32 c₁ = .ok declared c₂ ∧ declared.toNat = c₂.rest.length ∧
      Read.payload p k c₂ = .ok m c₃ ∧ c₃.rest = [] := by
  unfold decode at h
  cases hread : Read.message p (Cursor.ofBytes frame) with
  | error e c => simp [EStateM.run, hread] at h
  | ok m' c =>
    rw [EStateM.run, hread] at h
    obtain rfl := Except.ok.inj h
    obtain ⟨k, c₁, hkind, hread⟩ := Read.bind_eq_ok hread
    obtain ⟨declared, c₂, hlength, hread⟩ := Read.bind_eq_ok hread
    rw [Read.get_bind] at hread
    split at hread
    next hsize =>
      obtain ⟨m'', c₃, hpayload, hread⟩ := Read.bind_eq_ok hread
      obtain ⟨_, c₄, hfinish, hread⟩ := Read.bind_eq_ok hread
      obtain rfl := Read.pure_eq_ok hread
      refine ⟨k, c₁, declared, c₂, c₃, hkind, hlength, hsize, hpayload,
        List.length_eq_zero_iff.1 ?_⟩
      unfold Read.finish at hfinish
      split at hfinish
      next h => exact h
      next h => simp at hfinish
    next => simp [Read.throw_apply] at hread

/-- What is read from a frame is read from a payload that is as long as the frame says, and taken
whole. -/
theorem payload_eq_ok_of_decode {p : Parameters S} {frame : Bytes} {m : Message S}
    (h : decode p frame = .ok m) :
    ∃ k c c', Read.payload p k c = .ok m c' ∧ c.rest.length < UInt32.size ∧ c'.rest = [] := by
  obtain ⟨k, c₁, declared, c₂, c₃, -, -, hsize, hpayload, hrest⟩ := exists_of_decode h
  exact ⟨k, c₂, c₃, hpayload, hsize ▸ declared.toNat_lt, hrest⟩

/-- **What is read from a frame is well formed.** -/
theorem isWellFormed_of_decode (G : S.Subgroups) {p : Parameters S} {frame : Bytes} {m : Message S}
    (h : decode p frame = .ok m) : m.IsWellFormed G p := by
  obtain ⟨k, c, c', hpayload, hsize, hrest⟩ := payload_eq_ok_of_decode h
  obtain ⟨n, hn, hshape, hlength⟩ := Read.ensures_payload G p k c m c' hpayload
  rw [hrest, List.length_nil] at hn
  exact ⟨hshape, by omega⟩

/-- **The snapshots of a heartbeat fit their tiers**, whoever sent it and whatever points are. -/
theorem fitsTier_of_decode {p : Parameters S} {frame : Bytes} {hb : Heartbeat S}
    (h : decode p frame = .ok (.heartbeat hb)) : ∀ g ∈ hb.groups, g.FitsTier p := by
  obtain ⟨k, c, c', hpayload, -, -⟩ := payload_eq_ok_of_decode h
  obtain rfl : MessageKind.heartbeat = k := always_kind p k _ _ _ hpayload
  obtain ⟨seq, c₁, -, hpayload⟩ := Read.bind_eq_ok hpayload
  obtain ⟨f, c₂, -, hpayload⟩ := Read.bind_eq_ok hpayload
  rw [Read.get_bind] at hpayload
  obtain ⟨groups, c₃, hgroups, hpayload⟩ := Read.bind_eq_ok hpayload
  obtain rfl := (Message.heartbeat.inj (Read.pure_eq_ok hpayload))
  exact Read.always_untilEnd (Read.always_snapshot p) _ _ _ _ hgroups

end Message

end GroupKey
