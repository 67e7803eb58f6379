import GroupKey.Proofs.Wire.RoundTrip

/-!
# One frame for every message

A message has one frame: if a frame is accepted, writing its message again gives the frame back.
Most of what a frame states twice is compared when it is read, such as the length of a payload or of
a snapshot. One word is not. A ciphertext starts with the length of the message that its parts hold;
a distribution to no group has no part, and then any length is accepted, though zero is written.

* `Read.Takes` — what holds of a value that was read, and of the bytes that were read for it.
* `Message.Misstates` — a frame of a distribution to no group that states some length all the same.
* `Message.encode_of_decode` — every other frame that is accepted is the one that is written.
* `Message.decode_eq_ok_iff` — both together: the frames that are accepted, and as which message.
-/

namespace GroupKey

variable {S : Suite}

theorem GroupId.toBytes_ofBytes {bytes : Bytes} (h : bytes.length = size) :
    (ofBytes bytes).toBytes = bytes := by
  have hlength : bytes.length = 16 := h
  have hlast : (bytes.drop 8).take 8 = bytes.drop 8 :=
    List.take_of_length_le (by simp [hlength])
  have hfront (n k : Nat) : bytes.take n ++ (bytes.drop n).take k = bytes.take (n + k) :=
    List.take_add.symm
  rw [toBytes, ofBytes, Bytes.ofUInt32_toNatBE, Bytes.ofUInt16_toNatBE, Bytes.ofUInt16_toNatBE,
    Bytes.ofUInt64_toNatBE, hfront 4 2, hfront 6 2, hlast, List.take_append_drop]
  all_goals simp [hlength]

/-! ## Values and the bytes read for them -/

/-- The cursor was moved over the bytes. -/
structure Cursor.Passes (c c' : Cursor) (bytes : Bytes) : Prop where
  rest : c.rest = bytes ++ c'.rest
  position : c'.position = c.position + bytes.length

theorem Cursor.Passes.nil (c : Cursor) : c.Passes c [] := ⟨rfl, rfl⟩

theorem Cursor.Passes.append {c₁ c₂ c₃ : Cursor} {xs ys : Bytes} (h : c₁.Passes c₂ xs)
    (h' : c₂.Passes c₃ ys) : c₁.Passes c₃ (xs ++ ys) where
  rest := by rw [h.rest, h'.rest, List.append_assoc]
  position := by rw [h'.position, h.position, List.length_append, Nat.add_assoc]

namespace Read

variable {α β : Type}

/-- Whatever the reader gives, together with the bytes that it took, satisfies `Q`. -/
def Takes (read : Read α) (Q : α → Bytes → Prop) : Prop :=
  ∀ c a c', read c = .ok a c' → ∃ bytes, c.Passes c' bytes ∧ Q a bytes

theorem Takes.bind {x : Read α} {f : α → Read β} {P : α → Bytes → Prop} {Q : β → Bytes → Prop}
    (hx : Takes x P) (hf : ∀ a xs, P a xs → Takes (f a) fun b ys => Q b (xs ++ ys)) :
    Takes (x >>= f) Q := by
  intro c b c' hb
  obtain ⟨a, c₁, ha, hb⟩ := bind_eq_ok hb
  obtain ⟨xs, hxs, hP⟩ := hx c a c₁ ha
  obtain ⟨ys, hys, hQ⟩ := hf a xs hP c₁ b c' hb
  exact ⟨xs ++ ys, hxs.append hys, hQ⟩

theorem Takes.pure {a : α} {Q : α → Bytes → Prop} (h : Q a []) : Takes (pure a) Q := by
  intro c b c' hb
  obtain ⟨rfl, rfl⟩ := EStateM.Result.ok.inj hb
  exact ⟨[], .nil _, h⟩

theorem Takes.throw (e : WireError) (Q : α → Bytes → Prop) : Takes (throw e) Q := by
  intro c b c' hb
  rw [throw_apply] at hb
  simp at hb

theorem Takes.get {f : Cursor → Read α} {Q : α → Bytes → Prop} (h : ∀ c, Takes (f c) Q) :
    Takes (get >>= f) Q := by
  intro c b c' hb
  rw [get_bind] at hb
  exact h c c b c' hb

theorem Takes.map {x : Read α} {f : α → β} {P : α → Bytes → Prop} {Q : β → Bytes → Prop}
    (hx : Takes x P) (h : ∀ a bytes, P a bytes → Q (f a) bytes) :
    Takes (x >>= fun a => Pure.pure (f a)) Q :=
  hx.bind fun a bytes hP => .pure (by rw [List.append_nil]; exact h a bytes hP)

/-! ## Fields -/

theorem takes_bytes (k : Nat) : Takes (bytes k) fun a taken => taken = a.val := by
  intro c a c' ha
  simp only [bytes] at ha
  split at ha
  next h =>
    obtain ⟨rfl, rfl⟩ := EStateM.Result.ok.inj ha
    exact ⟨c.rest.take k, ⟨(List.take_append_drop k c.rest).symm, by rw [h]⟩, rfl⟩
  next h => simp at ha

theorem takes_uint16 : Takes uint16 fun x taken => taken = Bytes.ofUInt16 x :=
  (takes_bytes 2).map fun a _ h => h.trans (Bytes.ofUInt16_toNatBE a.property).symm

theorem takes_uint32 : Takes uint32 fun x taken => taken = Bytes.ofUInt32 x :=
  (takes_bytes 4).map fun a _ h => h.trans (Bytes.ofUInt32_toNatBE a.property).symm

theorem takes_uint64 : Takes uint64 fun x taken => taken = Bytes.ofUInt64 x :=
  (takes_bytes 8).map fun a _ h => h.trans (Bytes.ofUInt64_toNatBE a.property).symm

theorem takes_time : Takes time fun t taken => taken = Wire.time t :=
  takes_uint64.map fun _ _ h => h

theorem takes_prefixedExact (k : Nat) :
    Takes (prefixedExact k) fun field taken => field.length = k ∧ taken = Wire.prefixed field := by
  have hprefixed : Takes prefixed fun field taken => taken = Wire.prefixed field := by
    refine takes_uint16.bind fun length xs hxs => (takes_bytes length.toNat).map ?_
    intro field ys hys
    rw [hxs, hys, Wire.prefixed, field.property, UInt16.ofNat_toNat]
  refine hprefixed.bind fun field xs hxs => ?_
  split
  next h => exact .pure ⟨h, by rw [List.append_nil, hxs]⟩
  next h => exact .throw _ _

theorem takes_groupId : Takes groupId fun g taken => taken = g.toBytes := by
  refine (takes_bytes GroupId.size).bind fun bs xs hxs => ?_
  simp only
  split
  next h => exact .pure (by rw [List.append_nil, hxs, GroupId.toBytes_ofBytes bs.property])
  next h => exact .throw _ _

theorem takes_fingerprint : Takes fingerprint fun f taken => taken = Wire.fingerprint f := by
  refine takes_uint32.bind fun version xs hxs => takes_time.bind fun issued ys hys => ?_
  by_cases hv : 0 < version
  · rw [if_pos hv]
    refine (takes_bytes 32).map fun hash zs hzs => ?_
    rw [hxs, hys, hzs, Wire.fingerprint, if_pos hv, List.append_assoc]
  · rw [if_neg hv]
    refine .pure ?_
    rw [hxs, hys, Wire.fingerprint, if_neg hv, List.append_assoc]

theorem takes_phase : Takes phase fun p taken => taken = Bytes.ofUInt32 p.code := by
  refine takes_uint32.bind fun code xs hxs => ?_
  split
  next p hp =>
    refine .pure ?_
    rw [List.append_nil, hxs]
    unfold Phase.ofCode? at hp
    split_ifs at hp with h₁ h₂ h₃ <;> obtain rfl := Option.some.inj hp <;> simp_all [Phase.code]
  next => exact .throw _ _

theorem takes_kind : Takes kind fun k taken => taken = Bytes.ofUInt32 k.tag := by
  refine takes_uint32.bind fun tag xs hxs => ?_
  split
  next k hk =>
    refine .pure ?_
    unfold MessageKind.ofTag at hk
    split at hk
    next k' hfind =>
      obtain rfl := Except.ok.inj hk
      have htag : decide (k'.tag = tag) = true :=
        List.find?_some (p := fun k : MessageKind => decide (k.tag = tag)) hfind
      rw [List.append_nil, hxs, of_decide_eq_true htag]
    next => simp at hk
  next => exact .throw _ _

/-! ## Rows of values -/

theorem takes_times {read : Read α} {P : α → Prop} {write : α → Bytes}
    (h : Takes read fun a taken => P a ∧ taken = write a) (count : Nat) :
    Takes (times read count) fun as taken =>
      as.length = count ∧ (∀ a ∈ as, P a) ∧ taken = as.flatMap write := by
  induction count with
  | zero => exact .pure ⟨rfl, by simp, rfl⟩
  | succ count ih =>
    refine h.bind fun a xs ha => ih.map fun as ys has => ?_
    obtain ⟨hP, hxs⟩ := ha
    obtain ⟨hlength, hall, hys⟩ := has
    refine ⟨by rw [List.length_cons, hlength], List.forall_mem_cons.2 ⟨hP, hall⟩, ?_⟩
    rw [List.flatMap_cons, hxs, hys]

theorem takes_untilEnd {read : Read α} {write : α → Bytes}
    (h : Takes read fun a taken => taken = write a) (limit : Nat) :
    Takes (untilEnd read limit) fun as taken => taken = as.flatMap write := by
  induction limit with
  | zero => exact .pure rfl
  | succ limit ih =>
    refine .get fun c => ?_
    split
    · exact .pure rfl
    · refine h.bind fun a xs hxs => ih.map fun as ys hys => ?_
      rw [List.flatMap_cons, hxs, hys]

/-! ## Lengths that may differ -/

/-- The two differ in one word in front of `c1`, the second stating no length there. -/
def DifferInLength (c1 : S.G2) (taken written : Bytes) : Prop :=
  ∃ front length, length ≠ 0 ∧ taken = front ++ (Bytes.ofUInt32 length ++ Wire.point2 c1) ∧
    written = front ++ (Bytes.ofUInt32 0 ++ Wire.point2 c1)

theorem DifferInLength.append {c1 : S.G2} {taken written : Bytes}
    (h : DifferInLength c1 taken written) (front : Bytes) :
    DifferInLength c1 (front ++ taken) (front ++ written) := by
  obtain ⟨tail, length, hne, rfl, rfl⟩ := h
  exact ⟨front ++ tail, length, hne, (List.append_assoc _ _ _).symm, (List.append_assoc _ _ _).symm⟩

theorem DifferInLength.length_eq {c1 : S.G2} {taken written : Bytes}
    (h : DifferInLength c1 taken written) : taken.length = written.length := by
  obtain ⟨front, length, -, rfl, rfl⟩ := h
  simp

/-! ## Records -/

section Records

variable [hS : S.CanonicalPoints]

theorem takes_point1 : Takes (point1 S) fun x taken => taken = Wire.point1 x := by
  refine (takes_prefixedExact pointLength1).bind fun bs xs hbs => ?_
  cases hread : S.read1? bs with
  | none => exact .throw _ _
  | some x =>
    refine .pure ?_
    rw [List.append_nil, hbs.2, Wire.point1, hS.write1_of_read1? bs x hbs.1 hread]

theorem takes_point2 : Takes (point2 S) fun x taken => taken = Wire.point2 x := by
  refine (takes_prefixedExact pointLength2).bind fun bs xs hbs => ?_
  cases hread : S.read2? bs with
  | none => exact .throw _ _
  | some x =>
    refine .pure ?_
    rw [List.append_nil, hbs.2, Wire.point2, hS.write2_of_read2? bs x hbs.1 hread]

theorem takes_encryptionKey :
    Takes (encryptionKey (S := S)) fun k taken => taken = Wire.encryptionKey k := by
  refine takes_point2.bind fun lambda xs hxs => takes_point1.map fun mu ys hys => ?_
  rw [hxs, hys, Wire.encryptionKey]

/-- The length that a snapshot states is compared with the bytes between where it starts and where
it ends. -/
theorem takes_snapshot (p : Parameters S) :
    Takes (snapshot p) fun g taken => taken = Wire.snapshot g := by
  intro c g c' h
  rw [snapshot, get_bind] at h
  obtain ⟨declared, c₁, h₁, h⟩ := bind_eq_ok h
  obtain ⟨memberCount, c₂, h₂, h⟩ := bind_eq_ok h
  obtain ⟨id, c₃, h₃, h⟩ := bind_eq_ok h
  obtain ⟨expiry, c₄, h₄, h⟩ := bind_eq_ok h
  cases hs : p.scale id.tier with
  | error e => simp [hs, throw_apply] at h
  | ok scale =>
    simp only [hs] at h
    obtain ⟨slots, c₅, h₅, h⟩ := bind_eq_ok h
    obtain ⟨key, c₆, h₆, h⟩ := bind_eq_ok h
    rw [get_bind] at h
    split at h
    next hdeclared =>
      obtain ⟨rfl, rfl⟩ := EStateM.Result.ok.inj h
      obtain ⟨_, p₁, rfl⟩ := takes_uint32 _ _ _ h₁
      obtain ⟨_, p₂, rfl⟩ := takes_uint32 _ _ _ h₂
      obtain ⟨_, p₃, rfl⟩ := takes_groupId _ _ _ h₃
      obtain ⟨_, p₄, rfl⟩ := takes_time _ _ _ h₄
      obtain ⟨_, p₅, rfl⟩ := takes_bytes _ _ _ _ h₅
      obtain ⟨_, p₆, rfl⟩ := takes_encryptionKey _ _ _ h₆
      -- The cursor has moved by what was taken, so the stated length is that of these bytes.
      have hbody := (((p₂.append p₃).append p₄).append p₅).append p₆
      refine ⟨_, p₁.append hbody, ?_⟩
      have hposition := (p₁.append hbody).position
      rw [List.length_append, Bytes.length_ofUInt32] at hposition
      show _ = Wire.snapshot _
      rw [Wire.snapshot]
      congr 2
      rw [← UInt32.ofNat_toNat (x := declared), hdeclared, hposition, Nat.add_sub_cancel_left]
    next => simp [throw_apply] at h

theorem takes_entries (slot count j : Nat) :
    Takes (entries (S := S) slot j count) fun zs taken =>
      taken = zs.flatMap fun z => (z.map Wire.point1).getD [] := by
  induction count generalizing j with
  | zero => exact .pure rfl
  | succ count ih =>
    have hentry : Takes (if j = slot then pure none else some <$> point1 S) fun z taken =>
        taken = (z.map Wire.point1).getD [] := by
      by_cases hj : j = slot
      · rw [if_pos hj]
        exact .pure rfl
      · rw [if_neg hj]
        exact takes_point1.map fun x taken hx => hx
    rw [entries_succ]
    refine hentry.bind fun z xs hxs => (ih (j + 1)).map fun zs ys hys => ?_
    rw [List.flatMap_cons, hxs, hys]

theorem takes_joinProof (p : Parameters S) :
    Takes (joinProof p) fun proof taken => taken = Wire.joinProof proof := by
  refine takes_uint32.bind fun keyId ws hws => takes_uint32.bind fun rawTier xs hxs =>
    takes_uint32.bind fun slot ys hys => ?_
  by_cases hraw : UInt16.size ≤ rawTier.toNat
  · rw [if_pos hraw]
    exact .throw _ _
  rw [if_neg hraw]
  have htier : UInt32.ofNat (UInt16.ofNat rawTier.toNat).toNat = rawTier := by
    rw [UInt16.toNat_ofNat_of_lt' (Nat.lt_of_not_le hraw), UInt32.ofNat_toNat]
  cases hs : p.scale (.ofNat rawTier.toNat) with
  | error e =>
    simp only [hs]
    exact .throw _ _
  | ok scale =>
    simp only [hs]
    split
    · exact .throw _ _
    · refine takes_groupId.bind fun group gs hgs => takes_point2.bind fun u us hus =>
        (takes_entries slot.toNat scale 0).map fun z zs hzs => ?_
      rw [hws, hxs, hys, hgs, hus, hzs, Wire.joinProof, htier]
      simp only [List.append_assoc]

/-! ## Distributions -/

theorem takes_ciphertext (count : Nat) :
    Takes (ciphertext (S := S) count) fun c taken => c.parts.length = count ∧
      (taken = Wire.ciphertext c ∨ count = 0 ∧ DifferInLength c.c1 taken (Wire.ciphertext c)) := by
  refine takes_uint32.bind fun length xs hxs => takes_point2.bind fun c1 ys hys => ?_
  have hpart : Takes (ciphertextPart (S := S) length.toNat) fun part taken =>
      part.c3.length = length.toNat ∧ taken = Wire.point2 part.c2 ++ part.c3 := by
    refine takes_point2.bind fun c2 us hus => (takes_bytes length.toNat).map fun c3 vs hvs => ?_
    exact ⟨c3.property, by rw [hus, hvs]⟩
  refine (takes_times hpart count).map fun parts zs hparts => ?_
  obtain ⟨hcount, hall, rfl⟩ := hparts
  refine ⟨hcount, ?_⟩
  rw [hxs, hys, Wire.ciphertext]
  cases parts with
  | cons part parts =>
    -- The stated length is that of the first part.
    refine .inl ?_
    have hlength : Ciphertext.messageLength ⟨c1, part :: parts⟩ = length.toNat :=
      hall part List.mem_cons_self
    rw [hlength, UInt32.ofNat_toNat, List.append_assoc]
  | nil =>
    by_cases hlength : length = 0
    · exact .inl (by rw [hlength, List.append_assoc]; rfl)
    · refine .inr ⟨hcount.symm, [], length, hlength, ?_, ?_⟩
      · simp
      · simp [Ciphertext.messageLength]

theorem takes_distribution :
    Takes (distribution (S := S)) fun d taken => taken = Wire.distribution d ∨
      d.groups = [] ∧ DifferInLength d.ciphertext.c1 taken (Wire.distribution d) := by
  refine takes_uint32.bind fun count ws hws => takes_uint32.bind fun pid xs hxs =>
    takes_fingerprint.bind fun f ys hys => ?_
  have hgroup : Takes groupId fun g taken => True ∧ taken = g.toBytes := by
    simpa using takes_groupId
  refine (takes_times hgroup count.toNat).bind fun groups gs hgroups =>
    (takes_ciphertext count.toNat).map fun c zs hc => ?_
  obtain ⟨hlength, -, rfl⟩ := hgroups
  obtain ⟨-, rfl | ⟨hzero, hdiffer⟩⟩ := hc
  · refine .inl ?_
    rw [hws, hxs, hys, Wire.distribution, hlength, UInt32.ofNat_toNat]
    simp only [List.append_assoc]
  · refine .inr ⟨List.length_eq_zero_iff.1 (hlength.trans hzero), ?_⟩
    have h := hdiffer.append (Bytes.ofUInt32 count ++ (Bytes.ofUInt32 pid ++
      (Wire.fingerprint f ++ groups.flatMap GroupId.toBytes)))
    rw [Wire.distribution, hlength, UInt32.ofNat_toNat, hws, hxs, hys]
    simpa only [List.append_assoc] using h

end Records

end Read

/-! ## Messages -/

namespace Message

/-- The session key that a message distributes. -/
def distribution? : Message S → Option (Distribution S)
  | keyEncap d | keyUpdate d => some d
  | heartbeat _ | heartbeatAck _ | notifyPosition _ | join _ | joinAck _ | keyEncapNotify _
  | keyUpdateAck _ => none

/-- The message distributes a key to no group, and the frame is that of the message but for the
length of the key, which it states though it holds no part of that length. -/
def Misstates (m : Message S) (frame : Bytes) : Prop :=
  ∃ d, m.distribution? = some d ∧ d.groups = [] ∧
    Read.DifferInLength d.ciphertext.c1 frame m.encode

theorem Misstates.ne {m : Message S} {frame : Bytes} (h : m.Misstates frame) :
    frame ≠ m.encode := by
  obtain ⟨d, -, -, front, length, hne, hframe, hencode⟩ := h
  intro heq
  rw [hframe, hencode, List.append_right_inj, List.append_left_inj] at heq
  have hzero := congrArg Bytes.toNatBE heq
  rw [Bytes.toNatBE_ofUInt32, Bytes.toNatBE_ofUInt32] at hzero
  exact hne (UInt32.toNat_inj.1 hzero)

/-! ## Misstated lengths -/

/-- A distribution to no group ends in the length, which is zero, and `c1`. -/
theorem distribution_of_groups_nil {G : S.Subgroups} {d : Distribution S} (h : d.IsWellFormed G)
    (hgroups : d.groups = []) :
    Wire.distribution d = Bytes.ofUInt32 0 ++ (Bytes.ofUInt32 d.pid ++
      Wire.fingerprint d.fingerprint) ++ (Bytes.ofUInt32 0 ++ Wire.point2 d.ciphertext.c1) := by
  have hparts : d.ciphertext.parts = [] :=
    List.length_eq_zero_iff.1 (h.parts.trans (List.length_eq_zero_iff.2 hgroups))
  simp [Wire.distribution, Wire.ciphertext, Ciphertext.messageLength, hgroups, hparts]

/-- With no part to read, any length will do. -/
theorem parses_misstated {G : S.Subgroups} {d : Distribution S} (h : d.IsWellFormed G)
    (hgroups : d.groups = []) (length : UInt32) :
    Read.Parses Read.distribution (Bytes.ofUInt32 0 ++ (Bytes.ofUInt32 d.pid ++
      Wire.fingerprint d.fingerprint) ++ (Bytes.ofUInt32 length ++ Wire.point2 d.ciphertext.c1))
      d := by
  obtain ⟨pid, f, groups, c1, parts⟩ := d
  obtain rfl : groups = [] := hgroups
  obtain rfl : parts = [] := List.length_eq_zero_iff.1 h.parts
  have hciphertext : Read.Parses (Read.ciphertext 0)
      (Bytes.ofUInt32 length ++ Wire.point2 c1) ⟨c1, []⟩ :=
    (Read.parses_uint32 length).bind (Read.parses_point2_of_mem G h.ciphertext.c1).map
  simp only [List.append_assoc]
  refine (Read.parses_uint32 0).bind ((Read.parses_uint32 pid).bind
    ((Read.parses_fingerprint f).bind ?_))
  rw [Read.received_eq h.fingerprint]
  exact hciphertext.map

/-- **A frame that misstates the length is accepted** like the one that states it. -/
theorem decode_of_misstates {G : S.Subgroups} {p : Parameters S} {m : Message S} {frame : Bytes}
    (h : m.IsWellFormed G p) (hm : m.Misstates frame) : decode p frame = .ok m := by
  obtain ⟨d, hd, hgroups, front, length, -, rfl, hencode⟩ := hm
  have hpayload : m.payload = Wire.distribution d ∧ d.IsWellFormed G ∧
      ∀ taken, Read.Parses Read.distribution taken d →
        Read.Parses (Read.payload p m.kind) taken m := by
    cases m with
    | keyEncap d' =>
      obtain rfl := Option.some.inj hd
      exact ⟨rfl, h.shape, fun taken ht => ht.map⟩
    | keyUpdate d' =>
      obtain rfl := Option.some.inj hd
      exact ⟨rfl, h.shape, fun taken ht => ht.map⟩
    | _ => simp [distribution?] at hd
  obtain ⟨hpayload, hshape, hparses⟩ := hpayload
  have hwritten := distribution_of_groups_nil hshape hgroups
  have hread := hparses _ (parses_misstated hshape hgroups length)
  generalize Bytes.ofUInt32 0 ++ (Bytes.ofUInt32 d.pid ++ Wire.fingerprint d.fingerprint) = head
    at hwritten hread
  have hlength : (head ++ (Bytes.ofUInt32 length ++ Wire.point2 d.ciphertext.c1)).length =
      m.payload.length := by
    rw [hpayload, hwritten]
    simp
  -- The frame and the honest one are the same up to the length of the message.
  have hfront : Bytes.ofUInt32 m.kind.tag ++ Bytes.ofUInt32 (.ofNat m.payload.length) ++ head =
      front := by
    have hcancel : Bytes.ofUInt32 m.kind.tag ++ Bytes.ofUInt32 (.ofNat m.payload.length) ++ head ++
        (Bytes.ofUInt32 0 ++ Wire.point2 d.ciphertext.c1) =
        front ++ (Bytes.ofUInt32 0 ++ Wire.point2 d.ciphertext.c1) := by
      rw [← hencode, encode, List.append_assoc, ← hwritten, hpayload]
    exact List.append_cancel_right hcancel
  rw [← hfront, List.append_assoc, ← hlength]
  refine decode_of_payload (hlength ▸ h.length_payload) fun position => ?_
  simpa using hread [] position

/-! ## Frames and what is read from them -/

variable [S.CanonicalPoints]

theorem takes_payload (p : Parameters S) (k : MessageKind) :
    (Read.payload p k).Takes fun m taken => taken = m.payload ∨
      ∃ d, m.distribution? = some d ∧ d.groups = [] ∧
        Read.DifferInLength d.ciphertext.c1 taken m.payload := by
  cases k with
  | heartbeat =>
    refine Read.takes_uint32.bind fun seq xs hxs => Read.takes_fingerprint.bind fun f ys hys =>
      .get fun c => (Read.takes_untilEnd (Read.takes_snapshot p) _).map fun groups zs hzs => ?_
    exact .inl (by rw [hxs, hys, hzs, payload, List.append_assoc])
  | heartbeatAck =>
    refine Read.takes_phase.bind fun phase xs hxs => Read.takes_uint32.bind fun pid ys hys =>
      Read.takes_uint32.map fun seq zs hzs => ?_
    exact .inl (by rw [hxs, hys, hzs, payload, List.append_assoc])
  | notifyPosition =>
    refine Read.takes_groupId.bind fun group xs hxs => Read.takes_uint32.bind fun slot ys hys =>
      Read.takes_uint32.map fun pid zs hzs => ?_
    exact .inl (by rw [hxs, hys, hzs, payload, List.append_assoc])
  | join =>
    refine Read.takes_uint32.bind fun pid xs hxs =>
      (Read.takes_joinProof p).map fun proof ys hys => ?_
    exact .inl (by rw [hxs, hys, payload])
  | joinAck =>
    refine Read.takes_groupId.bind fun group vs hvs => Read.takes_uint32.bind fun slot ws hws =>
      Read.takes_uint32.bind fun keyId xs hxs => Read.takes_point1.bind fun share ys hys =>
        Read.takes_encryptionKey.map fun key zs hzs => ?_
    exact .inl (by rw [hvs, hws, hxs, hys, hzs, payload]; simp only [List.append_assoc])
  | keyEncapNotify =>
    refine Read.takes_uint32.bind fun pid xs hxs => Read.takes_uint32.bind fun keyLength ys hys =>
      Read.takes_uint32.map fun version zs hzs => ?_
    exact .inl (by rw [hxs, hys, hzs, payload, List.append_assoc])
  | keyEncap =>
    -- Only a distribution can be read from other bytes than those that it is written with.
    exact Read.takes_distribution.map fun d taken hd => hd.imp_right fun h => ⟨d, rfl, h.1, h.2⟩
  | keyUpdate =>
    exact Read.takes_distribution.map fun d taken hd => hd.imp_right fun h => ⟨d, rfl, h.1, h.2⟩
  | keyUpdateAck =>
    refine Read.takes_uint32.bind fun pid xs hxs => Read.takes_fingerprint.map fun f ys hys => ?_
    exact .inl (by rw [hxs, hys, payload])

/-- **An accepted frame is the one that is written for its message**, unless it misstates the length
of a key that goes to no group. -/
theorem encode_of_decode {p : Parameters S} {frame : Bytes} {m : Message S}
    (h : decode p frame = .ok m) : m.encode = frame ∨ m.Misstates frame := by
  obtain ⟨k, c₁, declared, c₂, c₃, hkind, hlength, hdeclared, hpayload, hrest⟩ := exists_of_decode h
  obtain ⟨_, hpasses₁, rfl⟩ := Read.takes_kind _ _ _ hkind
  obtain ⟨_, hpasses₂, rfl⟩ := Read.takes_uint32 _ _ _ hlength
  obtain ⟨taken, hpasses₃, htaken⟩ := takes_payload p k _ _ _ hpayload
  obtain rfl : m.kind = k := always_kind p k _ _ _ hpayload
  have hframe : frame = Bytes.ofUInt32 m.kind.tag ++ Bytes.ofUInt32 declared ++ taken := by
    have h := ((hpasses₁.append hpasses₂).append hpasses₃).rest
    rwa [hrest, List.append_nil] at h
  have hsize : Bytes.ofUInt32 declared = Bytes.ofUInt32 (.ofNat taken.length) := by
    rw [← UInt32.ofNat_toNat (x := declared), hdeclared, hpasses₃.rest, hrest, List.append_nil]
  rw [hsize] at hframe
  obtain rfl | ⟨d, hd, hgroups, hdiffer⟩ := htaken
  · exact .inl hframe.symm
  · refine .inr ⟨d, hd, hgroups, ?_⟩
    rw [hframe, encode, ← hdiffer.length_eq]
    exact hdiffer.append _

/-- **The frames that are accepted.** -/
theorem decode_eq_ok_iff (G : S.Subgroups) {p : Parameters S} {frame : Bytes} {m : Message S} :
    decode p frame = .ok m ↔ m.IsWellFormed G p ∧ (m.encode = frame ∨ m.Misstates frame) := by
  constructor
  · exact fun h => ⟨isWellFormed_of_decode G h, encode_of_decode h⟩
  · rintro ⟨h, rfl | hm⟩
    · exact (wellFormed_messages G p).1 m h
    · exact decode_of_misstates h hm

end Message

end GroupKey
