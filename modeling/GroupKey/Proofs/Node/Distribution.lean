import GroupKey.Proofs.Node.Emission
import GroupKey.Proofs.Node.MemberBook
import GroupKey.Proofs.Node.MemberState
import GroupKey.Proofs.Session.Retention
import GroupKey.Proofs.Wire.Canonical

/-!
# The keys that a member distributes

A member distributes a session key on its own account or because it was asked to. It draws the key,
notes it in its book and sends it to all groups that it knows. Its own distribution it will ignore
when it is relayed, so the book is the only place from which it can have the key once it is
confirmed. But the key is of a version above all others, and this is the one of which a full book
drops a candidate.

* `Distributes` — a step in which a member draws a key and sends it.
* `Prompts` — what makes a member send a key, and which version the key comes after.
* `distributes_of_react` — every key that a member sends comes from such a step.
* `IsReachable` — the states that a member can come to; in all of them its book is in order.
* `held_after_distributing` — exactly when a member has the key that it has just sent.
* `waits_run`, `lost_after_proposals` — proposals that nobody answers fill a book, and the next is
  lost.
-/

namespace GroupKey.Member

variable {S : Suite} {ρ : Type} {ctx : Context S} {m m' : Member S ρ}
  {e : Coordinator.Stimulus S} {d : Distribution S}

/-! ## Versions of new keys -/

theorem toNat_nextVersion (version : UInt32) :
    (nextVersion version).toNat = min (version.toNat + 1) (UInt32.size - 1) := by
  have hsize : UInt32.size = 4294967296 := rfl
  exact UInt32.toNat_ofNat_of_lt' (by omega)

theorem nextVersion_pos (version : UInt32) : 0 < nextVersion version := by
  have hsize : UInt32.size = 4294967296 := rfl
  rw [UInt32.lt_iff_toNat_lt, toNat_nextVersion, UInt32.toNat_zero]
  omega

theorem le_nextVersion {version seen : UInt32} (h : version ≤ seen) :
    version ≤ nextVersion seen := by
  have hsize : UInt32.size = 4294967296 := rfl
  have hv := version.toNat_lt
  rw [UInt32.le_iff_toNat_le] at h
  rw [UInt32.le_iff_toNat_le, toNat_nextVersion]
  omega

/-- Only the last version has no newer one. -/
theorem lt_nextVersion {version seen : UInt32} (h : version ≤ seen)
    (hlast : version.toNat + 1 < UInt32.size) : version < nextVersion seen := by
  rw [UInt32.le_iff_toNat_le] at h
  rw [UInt32.lt_iff_toNat_lt, toNat_nextVersion]
  omega

/-! ## Steps that distribute a key -/

/-- What makes a member send `x`, which distributes `d`, and the version `seen` that the key of `d`
comes after. -/
inductive Prompts (ctx : Context S) (e : Coordinator.Stimulus S) (m : Member S ρ)
    (d : Distribution S) : Message S → UInt32 → Prop
  | proposal (timer : e.input = .timer .keyUpdate) :
    Prompts ctx e m d (.keyUpdate d) m.session.highestVersion
  | request {request : DispatchRequest} (arrived : e.Carries ctx (.keyEncapNotify request))
      (addressed : request.pid = m.pid) :
    Prompts ctx e m d (.keyEncap d) (max request.version m.session.highestVersion)

theorem Prompts.highestVersion_le {x : Message S} {seen : UInt32}
    (h : Prompts ctx e m d x seen) : m.session.highestVersion ≤ seen := by
  cases h with
  | proposal => exact UInt32.le_rfl
  | request =>
    rw [UInt32.le_iff_toNat_le, KeyBook.toNat_max]
    exact Nat.le_max_right _ _

variable [Generator ρ]

/-- A joined member draws a key as the version after all that it knows of, notes it and sends it. -/
structure Distributes (ctx : Context S) (now : Timestamp) (d : Distribution S) (m m' : Member S ρ) :
    Prop where
  joined : m.phase = .joined
  drawn : ∃ seen keyLength, m.session.highestVersion ≤ seen ∧
    m.distribute ctx now (nextVersion seen) keyLength = (d, m')

/-- Whatever message with a key a member sends, the key is drawn for it, and this is why. -/
theorem prompts_of_react {x : Message S} (hx : x ∈ Coordinator.emitted (m.react ctx e).1)
    (hd : x.distribution? = some d) : m.phase = .joined ∧ ∃ seen keyLength,
      Prompts ctx e m d x seen ∧
      m.distribute ctx e.now (nextVersion seen) keyLength = (d, (m.react ctx e).2) := by
  unfold Member.react at hx ⊢
  cases hin : e.input with
  | timer timer =>
    simp only [hin] at hx ⊢
    have hticks := ticks_tick ctx e.now timer m
    generalize m.tick ctx e.now timer = r at hticks hx ⊢
    cases hticks with
    | passed => cases hx
    | drawn joined draws =>
      obtain rfl := List.mem_singleton.1 hx
      obtain rfl := Option.some.inj hd
      exact ⟨joined, _, _, .proposal hin, draws⟩
  | frame bytes =>
    simp only [hin, Member.receive] at hx ⊢
    cases hmsg : ctx.decode? bytes with
    | none => simp [hmsg, Coordinator.emitted] at hx
    | some msg =>
      simp only [hmsg] at hx ⊢
      have hkeys (hof : msg.IsOfKeys) : m.phase = .joined ∧ ∃ seen keyLength,
          Prompts ctx e m d x seen ∧ m.distribute ctx e.now (nextVersion seen) keyLength =
            (d, (m.handle ctx e.now msg e.directory).2.1) := by
        obtain ⟨ms, m', hhandle, hkeys⟩ := handlesKeys_handle hof ctx e.now e.directory m
        rw [hhandle] at hx ⊢
        cases hkeys with
        | drawn addressed joined draws =>
          obtain rfl := List.mem_singleton.1 hx
          obtain rfl := Option.some.inj hd
          exact ⟨joined, _, _, .request ⟨bytes, hin, hmsg⟩ addressed, draws⟩
        | passed | decrypted | confirmed => cases hx
      cases msg with
      | heartbeat hb =>
        obtain rfl := List.mem_singleton.1 hx
        simp [Message.distribution?] at hd
      | heartbeatAck ack => cases hx
      | notifyPosition a =>
        change x ∈ Coordinator.emitted (m.handleNotifyPosition ctx a e.directory).1 at hx
        have hassigned := assigned_handleNotifyPosition ctx a e.directory m
        generalize m.handleNotifyPosition ctx a e.directory = r at hassigned hx
        cases hassigned with
        | passed | unscaled | unproved => cases hx
        | proved =>
          obtain rfl := List.mem_singleton.1 hx
          simp [Message.distribution?] at hd
      | join | joinAck => simp [handle] at hx
      | keyEncapNotify | keyEncap | keyUpdate | keyUpdateAck => exact hkeys (by trivial)

/-- **Every key that a member sends is one that it has just drawn.** -/
theorem distributes_of_react {x : Message S} (hx : x ∈ Coordinator.emitted (m.react ctx e).1)
    (hd : x.distribution? = some d) : Distributes ctx e.now d m (m.react ctx e).2 := by
  obtain ⟨hjoined, seen, keyLength, hprompts, hdrawn⟩ := prompts_of_react hx hd
  exact ⟨hjoined, seen, keyLength, hprompts.highestVersion_le, hdrawn⟩

/-! ## The book of a member -/

theorem told_react (ctx : Context S) (e : Coordinator.Stimulus S) (m : Member S ρ) :
    KeyBook.Told S.hash (fun _ => True) m.session (m.react ctx e).2.session := by
  unfold Member.react
  cases e.input with
  | timer timer => exact (told_tick ctx e.now timer m).mono fun _ _ => trivial
  | frame bytes =>
    simp only [Member.receive]
    cases ctx.decode? bytes with
    | none => exact .refl _
    | some msg => exact (told_handle ctx e.now msg e.directory).mono fun _ _ => trivial

/-- The states that a new member can come to, with frames of any bytes, timers, and any directory
and clock at each step. -/
def IsReachable (ctx : Context S) (m : Member S ρ) : Prop :=
  ∃ pid generator directory m₀ directory' events,
    Member.new pid generator directory = (.ok m₀, directory') ∧ m = m₀.run ctx events

theorem run_append (ctx : Context S) (m : Member S ρ)
    (events later : List (Coordinator.Stimulus S)) :
    m.run ctx (events ++ later) = (m.run ctx events).run ctx later :=
  List.foldl_append

theorem isReachable_new {pid : UInt32} {generator : ρ} {directory directory' : Directory S}
    (h : Member.new pid generator directory = (.ok m, directory')) : m.IsReachable ctx :=
  ⟨pid, generator, directory, m, directory', [], h, rfl⟩

theorem IsReachable.run (h : m.IsReachable ctx) (events : List (Coordinator.Stimulus S)) :
    (m.run ctx events).IsReachable ctx := by
  obtain ⟨pid, generator, directory, m₀, directory', before, hnew, rfl⟩ := h
  exact ⟨pid, generator, directory, m₀, directory', before ++ events, hnew,
    (run_append ctx m₀ before events).symm⟩

theorem IsReachable.react (h : m.IsReachable ctx) (e : Coordinator.Stimulus S) :
    (m.react ctx e).2.IsReachable ctx :=
  h.run [e]

theorem IsReachable.induction (h : m.IsReachable ctx) {P : Member S ρ → Prop}
    (hnew : ∀ pid generator directory m directory',
      Member.new pid generator directory = (.ok m, directory') → P m)
    (hstep : ∀ m e, P m → P (m.react ctx e).2) : P m := by
  obtain ⟨pid, generator, directory, m₀, directory', events, h₀, rfl⟩ := h
  have hrun : ∀ m, P m → P (m.run ctx events) := by
    induction events with
    | nil => exact fun m hm => hm
    | cons e events ih => exact fun m hm => ih _ (hstep m e hm)
  exact hrun m₀ (hnew pid generator directory m₀ directory' h₀)

theorem IsReachable.orderly (h : m.IsReachable ctx) : m.session.Orderly := by
  refine h.induction (fun _ _ _ _ _ hnew => ?_) fun m e ho => (told_react ctx e m).orderly ho
  obtain ⟨key, res, -, -, rfl⟩ := new_eq_ok hnew
  exact KeyBook.orderly_empty

/-! ## What a distributor holds -/

/-- What is drawn is offered to the book, as a version that no candidate is above. -/
theorem Distributes.offered (h : Distributes ctx e.now d m m') :
    ∃ key, m'.session = (m.session.call S.hash (.offer d.fingerprint key)).2 ∧
      d.fingerprint.Matches S.hash key ∧
      m.session.highestVersion ≤ d.fingerprint.version ∧
      (m.session.current.version.toNat + 1 < UInt32.size →
        d.fingerprint.IsNewer m.session.current) ∧
      (m.session.highestVersion.toNat + 1 < UInt32.size →
        m.session.highestVersion < d.fingerprint.version) := by
  obtain ⟨seen, keyLength, hseen, hdrawn⟩ := h.drawn
  obtain ⟨rfl, rfl⟩ := Prod.mk.inj hdrawn
  have hpos := nextVersion_pos seen
  refine ⟨(Generator.bytes keyLength m.generator).1, rfl, ⟨hpos, ?_⟩, le_nextVersion hseen,
    fun hlast => lt_nextVersion (UInt32.le_trans m.session.current_le_highestVersion hseen) hlast,
    lt_nextVersion hseen⟩
  exact (if_neg (UInt32.ne_of_lt hpos).symm).symm

theorem held_of_distributes (ho : m.session.Orderly) (h : Distributes ctx e.now d m m') :
    (m'.session.HasKeyFor d.fingerprint ↔ m.session.HasKeyFor d.fingerprint ∨
      d.fingerprint.IsNewer m.session.current ∧ (m.session.unconfirmed < KeyBook.maxUnconfirmed ∨
        (m.session.find? d.fingerprint).isSome = true)) ∧
    (m.session.current.version.toNat + 1 < UInt32.size →
      m.session.unconfirmed < KeyBook.maxUnconfirmed → m'.session.HasKeyFor d.fingerprint) ∧
    (m.session.highestVersion.toNat + 1 < UInt32.size →
      ¬ m.session.unconfirmed < KeyBook.maxUnconfirmed → ¬ m'.session.HasKeyFor d.fingerprint) := by
  obtain ⟨key, hsession, hmatches, hhighest, hnewer, habove⟩ := h.offered
  have hiff := KeyBook.hasKeyFor_offer_iff ho hmatches fun v hv =>
    UInt32.le_trans (KeyBook.le_highestVersion hv) hhighest
  rw [← hsession] at hiff
  refine ⟨hiff, fun hlast hroom => hiff.2 (.inr ⟨hnewer hlast, .inl hroom⟩), fun hlast hfull => ?_⟩
  have hlt := habove hlast
  have hnone := KeyBook.find?_of_highestVersion_lt hlt
  rw [hiff, hnone]
  rintro ((⟨hversion, -⟩ | hheld) | ⟨-, hroom | hsome⟩)
  · have hle := m.session.current_le_highestVersion
    rw [hversion] at hle
    exact UInt32.lt_irrefl _ (UInt32.lt_of_lt_of_le hlt hle)
  · simp [hnone] at hheld
  · exact hfull hroom
  · cases hsome

/-- **Exactly when a member has the key that it has just sent.** Let a member send a key, at any
time. It has the key afterwards if it had it before, or if the key is newer than the adopted one and
the book had room for one more candidate or had this one already. So, short of the last version, it
has the key if the book had room, and a full book has lost it. -/
theorem held_after_distributing (h : m.IsReachable ctx) (e : Coordinator.Stimulus S) {x : Message S}
    (hx : x ∈ Coordinator.emitted (m.react ctx e).1) (hd : x.distribution? = some d) :
    let book := m.session
    let after := (m.react ctx e).2.session
    (after.HasKeyFor d.fingerprint ↔ book.HasKeyFor d.fingerprint ∨
      d.fingerprint.IsNewer book.current ∧ (book.unconfirmed < KeyBook.maxUnconfirmed ∨
        (book.find? d.fingerprint).isSome = true)) ∧
    (book.current.version.toNat + 1 < UInt32.size →
      book.unconfirmed < KeyBook.maxUnconfirmed → after.HasKeyFor d.fingerprint) ∧
    (book.highestVersion.toNat + 1 < UInt32.size →
      ¬ book.unconfirmed < KeyBook.maxUnconfirmed → ¬ after.HasKeyFor d.fingerprint) :=
  held_of_distributes h.orderly (distributes_of_react hx hd)

/-! ## Proposals that are not answered -/

theorem react_keyUpdate (h : m.phase = .joined) (he : e.input = .timer .keyUpdate) :
    m.react ctx e =
      let r := m.distribute ctx e.now (nextVersion m.session.highestVersion)
        ctx.config.sessionKeyLength.toNat
      (.ok [.keyUpdate r.1], r.2) := by
  simp [react, he, tick, launchKeyUpdate, h]

/-- `m'` is the member `m` after `n` proposals that nobody answered: each left a candidate. -/
structure Waits (n : Nat) (m m' : Member S ρ) : Prop where
  joined : m'.phase = .joined
  current : m'.session.current = m.session.current
  unconfirmed : m'.session.unconfirmed = m.session.unconfirmed + n
  highest : m'.session.highestVersion.toNat = m.session.highestVersion.toNat + n

theorem Waits.propose {n : Nat} (h : Waits n m m') (he : e.input = .timer .keyUpdate)
    (hroom : m.session.unconfirmed + n < KeyBook.maxUnconfirmed)
    (hlast : m.session.highestVersion.toNat + n + 1 < UInt32.size) :
    Waits (n + 1) m (m'.react ctx e).2 := by
  obtain ⟨d, m'', hdrawn⟩ : ∃ d m'', m'.distribute ctx e.now
      (nextVersion m'.session.highestVersion) ctx.config.sessionKeyLength.toNat = (d, m'') :=
    ⟨_, _, rfl⟩
  have hphase : m''.phase = m'.phase := by
    rw [← show _ = m'' from congrArg Prod.snd hdrawn]
    rfl
  have hversion : d.fingerprint.version = nextVersion m'.session.highestVersion := by
    rw [← show _ = d from congrArg Prod.fst hdrawn]
    rfl
  have hsent : Distributes ctx e.now d m' m'' := ⟨h.joined, _, _, UInt32.le_rfl, hdrawn⟩
  obtain ⟨key, hsession, hmatches, -, -, hnewest⟩ := hsent.offered
  have hnewest := hnewest (by rw [h.highest]; exact hlast)
  have hnewer := UInt32.lt_of_le_of_lt (KeyBook.current_le_highestVersion _) hnewest
  have hfirst := KeyBook.candidates_of_highestVersion_lt hnewest
  rw [KeyBook.call_offer_of_room (h.unconfirmed ▸ hroom) hmatches hnewer hfirst] at hsession
  have hput := KeyBook.highestVersion_put (c := .offer d.fingerprint key) (UInt32.le_of_lt hnewest)
  have hstep : (m'.react ctx e).2 = m'' := by
    rw [react_keyUpdate h.joined he, hdrawn]
  rw [hstep]
  refine ⟨hphase.trans h.joined, ?_, ?_, ?_⟩
  · rw [hsession]
    exact h.current
  · rw [hsession, KeyBook.unconfirmed_put_offer (KeyBook.find?_of_highestVersion_lt hnewest),
      h.unconfirmed, Nat.add_assoc]
  · rw [hsession, hput, KeyBook.Call.fingerprint, hversion, toNat_nextVersion, h.highest]
    omega

/-- **Every proposal that nobody answers leaves a candidate**, as long as there is room. -/
theorem waits_run (hjoined : m.phase = .joined) (events : List (Coordinator.Stimulus S))
    (hticks : ∀ e ∈ events, e.input = .timer .keyUpdate)
    (hroom : m.session.unconfirmed + events.length ≤ KeyBook.maxUnconfirmed)
    (hlast : m.session.highestVersion.toNat + events.length < UInt32.size) :
    Waits events.length m (m.run ctx events) := by
  induction events using List.reverseRecOn with
  | nil => exact ⟨hjoined, rfl, rfl, rfl⟩
  | append_singleton events e ih =>
    simp only [List.length_append, List.length_singleton] at hroom hlast ⊢
    have hrun := ih (fun e' he' => hticks e' (List.mem_append_left _ he')) (by omega) (by omega)
    rw [run_append]
    exact hrun.propose (hticks e (by simp)) (by omega) (by omega)

/-- **A member that goes on proposing loses a key that it sends**: when the proposals that nobody
answered have filled its book, it sends one more, and does not have it. -/
theorem lost_after_proposals (h : m.IsReachable ctx) (hjoined : m.phase = .joined)
    {events : List (Coordinator.Stimulus S)}
    (hticks : ∀ e ∈ events, e.input = .timer .keyUpdate)
    (hfull : m.session.unconfirmed + events.length = KeyBook.maxUnconfirmed)
    (hlast : m.session.highestVersion.toNat + events.length + 1 < UInt32.size)
    (he : e.input = .timer .keyUpdate) :
    let r := (m.run ctx events).react ctx e
    ∃ x ∈ Coordinator.emitted r.1, ∃ d, x.distribution? = some d ∧
      ¬ r.2.session.HasKeyFor d.fingerprint := by
  intro r
  have hwaits : Waits events.length m (m.run ctx events) :=
    waits_run hjoined events hticks hfull.le (by omega)
  have hr : r = (m.run ctx events).react ctx e := rfl
  rw [react_keyUpdate hwaits.joined he] at hr
  have hsent : Distributes ctx e.now _ (m.run ctx events) r.2 :=
    ⟨hwaits.joined, _, _, UInt32.le_rfl, by rw [hr]⟩
  refine ⟨_, by rw [hr]; exact List.mem_singleton_self _, _, rfl, ?_⟩
  refine (held_of_distributes (h.run events).orderly hsent).2.2 ?_ ?_
  · rwa [hwaits.highest]
  · rw [hwaits.unconfirmed, hfull]
    exact lt_irrefl _

/-- The member is to propose a session key. -/
def sampleTick : Coordinator.Stimulus .sample := ⟨.empty, ⟨4000⟩, .timer .keyUpdate⟩

/-- A member that has joined proposes session keys, and no answer comes. -/
def sampleProposals? (count : Nat) : Option (List (Coordinator.Stimulus .sample)) :=
  sampleAdmission?.map (· ++ List.replicate count sampleTick)

theorem isReachable_sample (events : List (Coordinator.Stimulus .sample)) :
    (sampleMember.run sampleContext events).IsReachable sampleContext := by
  have hnew : Member.new 1 (Counter.mk 100) .empty =
      (.ok sampleMember, (Member.new (S := .sample) 1 (Counter.mk 100) .empty).2) :=
    Prod.ext (eq_ok_of_toOption (by decide +kernel)) rfl
  exact ⟨_, _, _, _, _, events, hnew, rfl⟩

theorem exists_sampleAdmission : ∃ events m, sampleAdmission? = some events ∧
    sampleMember.run sampleContext events = m ∧ m.pid = 1 ∧ m.phase = .joined ∧
      m.session.unconfirmed = 0 ∧ m.session.current.version = 0 ∧
      m.session.highestVersion = 0 := by
  have hrun : (sampleAdmission?.any fun events =>
      let m := sampleMember.run sampleContext events
      decide (m.pid = 1) && decide (m.phase = .joined) && decide (m.session.unconfirmed = 0) &&
        decide (m.session.current.version = 0) && m.session.pending.isEmpty) = true := by
    decide +kernel
  obtain ⟨events, hevents, hrun⟩ := (Option.any_eq_true _ _).1 hrun
  simp only [Bool.and_eq_true, decide_eq_true_eq] at hrun
  obtain ⟨⟨⟨⟨hpid, hjoined⟩, hcount⟩, hcurrent⟩, hempty⟩ := hrun
  refine ⟨events, _, hevents, rfl, hpid, hjoined, hcount, hcurrent, ?_⟩
  rw [KeyBook.highestVersion, Std.ExtTreeMap.maxKey?_eq_none_iff.2
    (Std.ExtTreeMap.isEmpty_iff.1 hempty), hcurrent]
  rfl

theorem input_of_mem_replicate {count : Nat} :
    ∀ e ∈ List.replicate count sampleTick, e.input = .timer .keyUpdate := fun e he => by
  rw [List.eq_of_mem_replicate he]
  rfl

/-- The sixteenth key that is not answered still has room. -/
theorem held_after_sixteen :
    ∃ events, sampleProposals? 15 = some events ∧
      let m := sampleMember.run sampleContext events
      m.session.unconfirmed = 15 ∧ ∃ x ∈ Coordinator.emitted (m.react sampleContext sampleTick).1,
        ∃ d, x.distribution? = some d ∧
          (m.react sampleContext sampleTick).2.session.HasKeyFor d.fingerprint := by
  obtain ⟨events, m, hevents, hm, -, hjoined, hcount, hcurrent, hhighest⟩ := exists_sampleAdmission
  have hwaits : Waits (List.replicate 15 sampleTick).length m
      (m.run sampleContext (List.replicate 15 sampleTick)) :=
    waits_run hjoined _ input_of_mem_replicate (by rw [hcount]; decide) (by rw [hhighest]; decide)
  have hreachable := isReachable_sample (events ++ List.replicate 15 sampleTick)
  have hproposals : sampleProposals? 15 = some (events ++ List.replicate 15 sampleTick) := by
    rw [sampleProposals?, hevents, Option.map_some]
  refine ⟨_, hproposals, ?_⟩
  rw [run_append, hm] at hreachable ⊢
  obtain ⟨m', hm'⟩ : ∃ m', m.run sampleContext (List.replicate 15 sampleTick) = m' := ⟨_, rfl⟩
  rw [hm'] at hwaits hreachable ⊢
  have hroom : m'.session.unconfirmed = 15 := by
    rw [hwaits.unconfirmed, hcount, List.length_replicate]
  obtain ⟨x, hx, d, hd⟩ : ∃ x ∈ Coordinator.emitted (m'.react sampleContext sampleTick).1,
      ∃ d, x.distribution? = some d := by
    rw [react_keyUpdate hwaits.joined rfl]
    exact ⟨_, List.mem_singleton_self _, _, rfl⟩
  refine ⟨hroom, x, hx, d, hd, ?_⟩
  refine (held_after_distributing hreachable sampleTick hx hd).2.1 ?_ ?_
  · rw [hwaits.current, hcurrent]
    decide
  · rw [hroom]
    decide

/-- **A member loses the key that it proposes** if sixteen others were not answered: it sends the
key, and does not have it. -/
theorem proposal_lost :
    ∃ events, sampleProposals? 16 = some events ∧
      let m := sampleMember.run sampleContext events
      let r := m.react sampleContext sampleTick
      m.IsReachable sampleContext ∧ ∃ x ∈ Coordinator.emitted r.1, ∃ d, x.distribution? = some d ∧
        ¬ r.2.session.HasKeyFor d.fingerprint := by
  obtain ⟨events, m, hevents, hm, -, hjoined, hcount, -, hhighest⟩ := exists_sampleAdmission
  have hproposals : sampleProposals? 16 = some (events ++ List.replicate 16 sampleTick) := by
    rw [sampleProposals?, hevents, Option.map_some]
  refine ⟨_, hproposals, isReachable_sample _, ?_⟩
  rw [run_append, hm]
  exact lost_after_proposals (hm ▸ isReachable_sample events) hjoined input_of_mem_replicate
    (by rw [hcount]; decide) (by rw [hhighest]; decide) rfl

end GroupKey.Member
