import GroupKey.Wire.Decode
import GroupKey.Wire.Encode
import Mathlib.Algebra.Group.Nat.Defs

/-!
# Fields that are read as they were written

A reader parses a byte string as a value when, whatever follows, it gives that value and stops
right behind the string. Parses of fields put together are parses of records, so each field is
looked at once.

* `Read.Parses` — what it means to read a field as it was written.
* `Parses.bind` — fields that follow each other.
* `parses_fingerprint` — a fingerprint loses nothing but a hash of version zero.
-/

namespace GroupKey

/-! ## Numbers -/

namespace Bytes

theorem toNatBE_concat (bytes : Bytes) (b : UInt8) :
    toNatBE (bytes ++ [b]) = toNatBE bytes * 256 + b.toNat := by
  rw [toNatBE, List.foldl_append]
  rfl

theorem toNatBE_ofNatBE {width n : Nat} (h : n < 256 ^ width) : toNatBE (ofNatBE width n) = n := by
  induction width generalizing n with
  | zero =>
    rw [Nat.pow_zero] at h
    rw [Nat.lt_one_iff.1 h]
    rfl
  | succ width ih =>
    rw [Nat.pow_succ] at h
    rw [ofNatBE, toNatBE_concat, ih (by omega), UInt8.toNat_ofNat']
    omega

theorem toNatBE_lt {bytes : Bytes} {width : Nat} (h : bytes.length = width) :
    toNatBE bytes < 256 ^ width := by
  induction width generalizing bytes with
  | zero =>
    rw [List.length_eq_zero_iff.1 h]
    exact Nat.one_pos
  | succ width ih =>
    rcases List.eq_nil_or_concat bytes with rfl | ⟨front, last, rfl⟩
    · simp at h
    · have hfront : toNatBE front < 256 ^ width := ih (by simpa using h)
      have hlast := last.toNat_lt
      rw [List.concat_eq_append, toNatBE_concat, Nat.pow_succ]
      omega

theorem ofNatBE_toNatBE {bytes : Bytes} {width : Nat} (h : bytes.length = width) :
    ofNatBE width (toNatBE bytes) = bytes := by
  induction width generalizing bytes with
  | zero =>
    rw [List.length_eq_zero_iff.1 h]
    rfl
  | succ width ih =>
    rcases List.eq_nil_or_concat bytes with rfl | ⟨front, last, rfl⟩
    · simp at h
    · have hfront : ofNatBE width (toNatBE front) = front := ih (by simpa using h)
      have hlast := last.toNat_lt
      have hdiv : (toNatBE front * 256 + last.toNat) / 256 = toNatBE front := by omega
      have hmod : UInt8.ofNat (toNatBE front * 256 + last.toNat) = last := by
        refine UInt8.toNat_inj.1 ?_
        rw [UInt8.toNat_ofNat']
        omega
      rw [List.concat_eq_append, toNatBE_concat, ofNatBE, hdiv, hmod, hfront]

theorem toNatBE_ofUInt16 (x : UInt16) : toNatBE (ofUInt16 x) = x.toNat :=
  toNatBE_ofNatBE x.toNat_lt

theorem toNatBE_ofUInt32 (x : UInt32) : toNatBE (ofUInt32 x) = x.toNat :=
  toNatBE_ofNatBE x.toNat_lt

theorem toNatBE_ofUInt64 (x : UInt64) : toNatBE (ofUInt64 x) = x.toNat :=
  toNatBE_ofNatBE x.toNat_lt

theorem ofUInt16_toNatBE {bytes : Bytes} (h : bytes.length = 2) :
    ofUInt16 (.ofNat (toNatBE bytes)) = bytes := by
  rw [ofUInt16, UInt16.toNat_ofNat_of_lt' (toNatBE_lt h), ofNatBE_toNatBE h]

theorem ofUInt32_toNatBE {bytes : Bytes} (h : bytes.length = 4) :
    ofUInt32 (.ofNat (toNatBE bytes)) = bytes := by
  rw [ofUInt32, UInt32.toNat_ofNat_of_lt' (toNatBE_lt h), ofNatBE_toNatBE h]

theorem ofUInt64_toNatBE {bytes : Bytes} (h : bytes.length = 8) :
    ofUInt64 (.ofNat (toNatBE bytes)) = bytes := by
  rw [ofUInt64, UInt64.toNat_ofNat_of_lt' (toNatBE_lt h), ofNatBE_toNatBE h]

end Bytes

namespace Read

variable {S : Suite} {α β : Type}

/-! ## Reading what was written -/

/-- The reader gives `a` for the bytes and stops behind them, whatever follows. -/
def Parses (read : Read α) (bytes : Bytes) (a : α) : Prop :=
  ∀ rest position, read ⟨bytes ++ rest, position⟩ = .ok a ⟨rest, position + bytes.length⟩

theorem bind_of_ok {x : Read α} {f : α → Read β} {c c' : Cursor} {a : α} (h : x c = .ok a c') :
    (x >>= f) c = f a c' := by
  show EStateM.bind x f c = f a c'
  rw [EStateM.bind, h]

theorem bind_of_error {x : Read α} {f : α → Read β} {c c' : Cursor} {e : WireError}
    (h : x c = .error e c') : (x >>= f) c = .error e c' := by
  show EStateM.bind x f c = .error e c'
  rw [EStateM.bind, h]

theorem bind_eq_ok {x : Read α} {f : α → Read β} {c c' : Cursor} {b : β}
    (h : (x >>= f) c = .ok b c') : ∃ a c₁, x c = .ok a c₁ ∧ f a c₁ = .ok b c' := by
  cases hx : x c with
  | error e c₁ =>
    rw [bind_of_error hx] at h
    simp at h
  | ok a c₁ =>
    rw [bind_of_ok hx] at h
    exact ⟨a, c₁, rfl, h⟩

theorem pure_eq_ok {a b : α} {c c' : Cursor} (h : (pure a : Read α) c = .ok b c') : b = a := by
  change EStateM.Result.ok a c = .ok b c' at h
  exact (EStateM.Result.ok.inj h).1.symm

/-- Whatever the reader gives satisfies the predicate. -/
def Always (read : Read α) (P : α → Prop) : Prop := ∀ c a c', read c = .ok a c' → P a

theorem Always.bind {x : Read α} {f : α → Read β} {P : β → Prop} (h : ∀ a, (f a).Always P) :
    Always (x >>= f) P := by
  intro c b c' hb
  obtain ⟨a, c₁, -, hf⟩ := bind_eq_ok hb
  exact h a c₁ b c' hf

theorem Always.pure {a : α} {P : α → Prop} (h : P a) : Always (pure a) P := by
  intro c b c' hb
  rw [pure_eq_ok hb]
  exact h

theorem get_bind (f : Cursor → Read α) (c : Cursor) : (get >>= f) c = f c c := rfl

theorem throw_apply (e : WireError) (c : Cursor) : (throw e : Read α) c = .error e c := rfl

theorem parses_pure (a : α) : Parses (pure a) [] a := fun _ _ => rfl

theorem Parses.bind {x : Read α} {f : α → Read β} {xs fs : Bytes} {a : α} {b : β}
    (hx : Parses x xs a) (hf : Parses (f a) fs b) : Parses (x >>= f) (xs ++ fs) b := by
  intro rest position
  rw [List.append_assoc, bind_of_ok (hx (fs ++ rest) position), hf, List.length_append,
    Nat.add_assoc]

theorem Parses.map {x : Read α} {f : α → β} {xs : Bytes} {a : α} (hx : Parses x xs a) :
    Parses (x >>= fun a => pure (f a)) xs (f a) := by
  have h := Parses.bind (f := fun a => pure (f a)) hx (parses_pure (f a))
  rwa [List.append_nil] at h

/-! ## Fields of fixed width -/

theorem parses_bytes {bs : Bytes} {n : Nat} (h : bs.length = n) : Parses (bytes n) bs ⟨bs, h⟩ := by
  intro rest position
  subst h
  have htake : (bs ++ rest).take bs.length = bs := List.take_left
  have hdrop : (bs ++ rest).drop bs.length = rest := List.drop_left
  simp only [bytes, htake, hdrop]
  rfl

theorem parses_uint16 (x : UInt16) : Parses uint16 (Bytes.ofUInt16 x) x := by
  have h := (parses_bytes (Bytes.length_ofUInt16 x)).map
    (f := fun bs => UInt16.ofNat (Bytes.toNatBE bs.val))
  simp only [Bytes.toNatBE_ofUInt16, UInt16.ofNat_toNat] at h
  exact h

theorem parses_uint32 (x : UInt32) : Parses uint32 (Bytes.ofUInt32 x) x := by
  have h := (parses_bytes (Bytes.length_ofUInt32 x)).map
    (f := fun bs => UInt32.ofNat (Bytes.toNatBE bs.val))
  simp only [Bytes.toNatBE_ofUInt32, UInt32.ofNat_toNat] at h
  exact h

theorem parses_uint64 (x : UInt64) : Parses uint64 (Bytes.ofUInt64 x) x := by
  have h := (parses_bytes (Bytes.length_ofUInt64 x)).map
    (f := fun bs => UInt64.ofNat (Bytes.toNatBE bs.val))
  simp only [Bytes.toNatBE_ofUInt64, UInt64.ofNat_toNat] at h
  exact h

theorem parses_time (t : Timestamp) : Parses time (Wire.time t) t :=
  (parses_uint64 t.micros).map

/-! ## Fingerprints -/

/-- A fingerprint as it arrives: that of version zero has no hash. -/
def received (f : Fingerprint) : Fingerprint :=
  { f with digest := if 0 < f.version then f.digest else .zero }

theorem parses_fingerprint (f : Fingerprint) :
    Parses fingerprint (Wire.fingerprint f) (received f) := by
  unfold Wire.fingerprint received
  rw [List.append_assoc]
  refine (parses_uint32 f.version).bind ((parses_time f.issued).bind ?_)
  by_cases hv : 0 < f.version
  · simp only [hv, if_true]
    exact (parses_bytes f.digest.length_bytes).map
  · simp only [hv, if_false]
    exact parses_pure _

/-! ## Frames -/

theorem parses_kind (k : MessageKind) : Parses kind (Bytes.ofUInt32 k.tag) k := by
  have h : Parses kind (Bytes.ofUInt32 k.tag ++ []) k := by
    refine (parses_uint32 k.tag).bind ?_
    cases k <;> exact parses_pure _
  rwa [List.append_nil] at h

end Read

namespace Message

variable {S : Suite}

/-- **A frame is read as a message of the kind it was written for**, from its whole payload, if it
is not refused. -/
theorem payload_of_decode {p : Parameters S} {m m' : Message S}
    (h : decode p m.encode = .ok m') :
    ∃ c, c.rest = [] ∧ Read.payload p m.kind ⟨m.payload, 8⟩ = .ok m' c := by
  have hkind := Read.parses_kind m.kind
    (Bytes.ofUInt32 (.ofNat m.payload.length) ++ m.payload) 0
  have hlength := Read.parses_uint32 (.ofNat m.payload.length) m.payload
    (0 + (Bytes.ofUInt32 m.kind.tag).length)
  simp only [Bytes.length_ofUInt32] at hkind hlength
  unfold decode at h
  rw [EStateM.run, Cursor.ofBytes, encode, List.append_assoc, Read.message,
    Read.bind_of_ok hkind, Read.bind_of_ok hlength, Read.get_bind] at h
  simp only at h
  by_cases hsize : (UInt32.ofNat m.payload.length).toNat = m.payload.length
  · rw [if_pos hsize] at h
    cases hpayload : Read.payload p m.kind ⟨m.payload, 8⟩ with
    | error e c =>
      rw [Read.bind_of_error hpayload] at h
      simp at h
    | ok m'' c =>
      rw [Read.bind_of_ok hpayload] at h
      cases hrest : c.rest with
      | nil =>
        have hfinish : Read.finish c = .ok () c := by
          rw [Read.finish, hrest]
          rfl
        rw [Read.bind_of_ok hfinish] at h
        obtain rfl := Except.ok.inj h
        exact ⟨c, hrest, rfl⟩
      | cons b rest =>
        have hfinish : Read.finish c = .error (.trailingBytes (rest.length + 1)) c := by
          rw [Read.finish, hrest]
          rfl
        rw [Read.bind_of_error hfinish] at h
        simp at h
  · rw [if_neg hsize, Read.throw_apply] at h
    simp at h

theorem always_kind (p : Parameters S) (k : MessageKind) :
    (Read.payload p k).Always fun m => m.kind = k := by
  cases k with
  | heartbeat => exact .bind fun _ => .bind fun _ => .bind fun _ => .bind fun _ => .pure rfl
  | heartbeatAck => exact .bind fun _ => .bind fun _ => .bind fun _ => .pure rfl
  | notifyPosition => exact .bind fun _ => .bind fun _ => .bind fun _ => .pure rfl
  | join => exact .bind fun _ => .bind fun _ => .pure rfl
  | joinAck =>
    exact .bind fun _ => .bind fun _ => .bind fun _ => .bind fun _ => .bind fun _ => .pure rfl
  | keyEncapNotify => exact .bind fun _ => .bind fun _ => .bind fun _ => .pure rfl
  | keyEncap => exact .bind fun _ => .pure rfl
  | keyUpdate => exact .bind fun _ => .pure rfl
  | keyUpdateAck => exact .bind fun _ => .bind fun _ => .pure rfl

theorem kind_of_decode {p : Parameters S} {m m' : Message S} (h : decode p m.encode = .ok m') :
    m'.kind = m.kind := by
  obtain ⟨c, -, hpayload⟩ := payload_of_decode h
  exact always_kind p m.kind _ _ _ hpayload

/-- The fingerprint that a message announces as the coordinator's choice. -/
def announced? : Message S → Option Fingerprint
  | heartbeat m => some m.accepted
  | keyUpdateAck m => some m.fingerprint
  | heartbeatAck _ | notifyPosition _ | join _ | joinAck _ | keyEncapNotify _ | keyEncap _
  | keyUpdate _ => none

/-- **An announced fingerprint arrives as it was sent**, whatever becomes of the rest of the
message. -/
theorem announced?_of_decode {p : Parameters S} {m m' : Message S}
    (h : decode p m.encode = .ok m') : m'.announced? = m.announced?.map Read.received := by
  obtain ⟨c, -, hpayload⟩ := payload_of_decode h
  have hkind := kind_of_decode h
  cases m with
  | heartbeat hb =>
    simp only [kind, payload, Read.payload] at hpayload
    rw [List.append_assoc, Read.bind_of_ok (Read.parses_uint32 hb.seq _ _),
      Read.bind_of_ok (Read.parses_fingerprint hb.accepted _ _)] at hpayload
    obtain ⟨_, _, -, hpayload⟩ := Read.bind_eq_ok hpayload
    obtain ⟨_, _, -, hpayload⟩ := Read.bind_eq_ok hpayload
    rw [Read.pure_eq_ok hpayload]
    rfl
  | keyUpdateAck ack =>
    simp only [kind, payload, Read.payload] at hpayload
    rw [Read.bind_of_ok (Read.parses_uint32 ack.pid _ _),
      ← List.append_nil (Wire.fingerprint ack.fingerprint),
      Read.bind_of_ok (Read.parses_fingerprint ack.fingerprint _ _)] at hpayload
    rw [Read.pure_eq_ok hpayload]
    rfl
  | _ => cases m' <;> simp_all [kind, announced?]

end Message

end GroupKey
