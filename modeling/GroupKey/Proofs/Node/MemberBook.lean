import GroupKey.Proofs.Node.Member
import GroupKey.Proofs.Session.KeyBook
import GroupKey.Proofs.Wire.Fields

/-!
# What a member tells its book

A member keeps its session keys in a book and tells it two things: fingerprints that the coordinator
announces, and bytes that it drew or decrypted. It changes the book in no other way. So what holds
of a book after any calls holds of the book of a member at any time.

* `KeyBook.Told` — a book after calls that confirm only what they may.
* `Member.told_handle`, `Member.told_tick` — what a message and a timer make a member tell its book.
-/

namespace GroupKey

/-! ## Books that are told of some fingerprints -/

namespace KeyBook

variable {hash : Bytes → Digest} {P Q : Fingerprint → Prop} {b b' : KeyBook}

/-- `b'` is `b` after calls that confirm only what satisfies `P`. -/
def Told (hash : Bytes → Digest) (P : Fingerprint → Prop) (b b' : KeyBook) : Prop :=
  ∃ calls, b' = run hash b calls ∧ ∀ f, .observe f ∈ calls → P f

theorem Told.refl (b : KeyBook) : Told hash P b b := ⟨[], rfl, by simp⟩

theorem told_observe {f : Fingerprint} (h : P f) : Told hash P b (b.observe f).2 :=
  ⟨[.observe f], rfl, fun _ hg => Call.observe.inj (List.mem_singleton.1 hg) ▸ h⟩

theorem told_offer (f : Fingerprint) (key : Bytes) : Told hash P b (b.offer hash f key).2 :=
  ⟨[.offer f key], rfl, by simp⟩

theorem Told.mono (h : Told hash P b b') (hPQ : ∀ f, P f → Q f) : Told hash Q b b' := by
  obtain ⟨calls, hb', hobserved⟩ := h
  exact ⟨calls, hb', fun f hf => hPQ f (hobserved f hf)⟩

theorem Told.orderly (h : Told hash P b b') (ho : b.Orderly) : b'.Orderly := by
  obtain ⟨calls, rfl, -⟩ := h
  exact ho.run hash calls

theorem Told.backed {log : List Fingerprint} (h : Told hash P b b') (hb : b.Backed log)
    (hP : ∀ f, P f → 0 < f.version → Vouched log f) : b'.Backed log := by
  obtain ⟨calls, rfl, hobserved⟩ := h
  induction calls generalizing b with
  | nil => exact hb
  | cons c calls ih =>
    refine ih (hb.call hash c ?_) fun f hf => hobserved f (List.mem_cons_of_mem _ hf)
    rintro f rfl
    exact hP f (hobserved f List.mem_cons_self)

end KeyBook

/-! ## The books of members -/

namespace Member

variable {S : Suite} {ρ : Type} {m : Member S ρ} {P : Fingerprint → Prop}

theorem session_handleJoinAck (ack : JoinAck S) :
    (m.handleJoinAck ack).2.session = m.session := by
  obtain ⟨engine, phase, groups, gaps, h, -⟩ := handleJoinAck_rest ack m
  rw [h]

theorem session_handleHeartbeat (now : Timestamp) (hb : Heartbeat S) :
    (m.handleHeartbeat now hb).2.session = (m.session.observe hb.accepted).2 := by
  obtain ⟨engine, phase, groups, gaps, h, -⟩ := handleHeartbeat_rest now hb m
  rw [h]

variable [Generator ρ]

theorem session_handleNotifyPosition (ctx : Context S) (a : Assignment) (directory : Directory S) :
    (m.handleNotifyPosition ctx a directory).2.1.session = m.session := by
  have hassigned := assigned_handleNotifyPosition ctx a directory m
  generalize m.handleNotifyPosition ctx a directory = r at hassigned ⊢
  cases hassigned <;> rfl

theorem session_handleJoin (ctx : Context S) (directory : Directory S) (join : Join S) :
    (m.handleJoin ctx directory join).2.session = m.session := by
  obtain ⟨engine, groups, gaps, generator, h, -⟩ := handleJoin_rest ctx directory join m
  rw [h]

theorem told_distribute {ctx : Context S} {now : Timestamp} {version : UInt32} {keyLength : Nat}
    {d : Distribution S} {m' : Member S ρ} (h : m.distribute ctx now version keyLength = (d, m')) :
    KeyBook.Told S.hash P m.session m'.session := by
  obtain rfl : _ = m' := congrArg Prod.snd h
  exact KeyBook.told_offer ..

theorem told_handle_of_keys {msg : Message S} (hmsg : msg.IsOfKeys) (ctx : Context S)
    (now : Timestamp) (directory : Directory S) :
    KeyBook.Told S.hash (fun f => msg.announced? = some f) m.session
      (m.handle ctx now msg directory).2.1.session := by
  obtain ⟨ms, m', hhandle, hkeys⟩ := handlesKeys_handle hmsg ctx now directory m
  rw [hhandle]
  cases hkeys with
  | passed => exact .refl _
  | drawn _ _ draws => exact told_distribute draws
  | decrypted => exact KeyBook.told_offer ..
  | confirmed ack => exact KeyBook.told_observe rfl

/-- **What a message makes a member tell its book**: it confirms what the message announces. -/
theorem told_handle (ctx : Context S) (now : Timestamp) (msg : Message S)
    (directory : Directory S) : KeyBook.Told S.hash (fun f => msg.announced? = some f) m.session
      (m.handle ctx now msg directory).2.1.session := by
  cases msg with
  | heartbeat hb =>
    show KeyBook.Told S.hash _ _ (m.handleHeartbeat now hb).2.session
    rw [session_handleHeartbeat]
    exact KeyBook.told_observe rfl
  | notifyPosition a =>
    show KeyBook.Told S.hash _ _ (m.handleNotifyPosition ctx a directory).2.1.session
    rw [session_handleNotifyPosition]
    exact .refl _
  | join join =>
    show KeyBook.Told S.hash _ _ (m.handleJoin ctx directory join).2.session
    rw [session_handleJoin]
    exact .refl _
  | joinAck ack =>
    show KeyBook.Told S.hash _ _ (m.handleJoinAck ack).2.session
    rw [session_handleJoinAck]
    exact .refl _
  | heartbeatAck _ => exact .refl _
  | keyEncapNotify | keyEncap | keyUpdate | keyUpdateAck =>
    exact told_handle_of_keys (by trivial) ctx now directory

theorem told_tick (ctx : Context S) (now : Timestamp) (timer : Timer) (m : Member S ρ) :
    KeyBook.Told S.hash (fun _ => False) m.session (m.tick ctx now timer).2.session := by
  have hticks := ticks_tick ctx now timer m
  generalize m.tick ctx now timer = r at hticks ⊢
  cases hticks with
  | passed => exact .refl _
  | drawn _ draws => exact told_distribute draws

end Member

end GroupKey
