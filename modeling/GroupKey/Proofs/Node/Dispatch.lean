import GroupKey.Proofs.Node.Admission

/-!
# A request for a key is answered once, by the member that was asked

From time to time the coordinator asks a member for a fresh session key. It remembers whom it asked,
until a key from that member is accepted, the member is evicted or another one is asked. So whoever
looks at what the coordinator sends finds, before each key that was asked for, a request to the very
member that it is from, and no other key or request in between. And the member that is asked is the
one heard most recently, of those that are alive and have a slot in a group that is still held.

* `IsCandidate` — the members that may be asked.
* `Ticks.settles` — who is asked, if anyone.
* `Dispatches`, `dispatches_react` — a step by what it does about requests.
* `Attends`, `Attends.run` — the state tells of the last request, and its records are in order.
* `request_answered_once` — keys and requests in any run.
-/

namespace GroupKey.Coordinator

variable {S : Suite} {ρ : Type}

/-! ## Members that may be asked -/

/-- A joined member with a slot in a group that is held, heard recently enough. -/
structure IsCandidate (ctx : Context S) (now : Timestamp) (c : Coordinator S ρ) (pid : UInt32)
    (record : MemberRecord) : Prop where
  known : c.liveness.get? pid = some record
  joined : record.joined = true
  seated : ∃ id slot, record.slot = some (id, slot) ∧ id ∈ c.groups
  alive : now.since record.lastHeard ≤ ctx.config.livenessTimeout

/-- Of all candidates, the one heard last; among those heard at one time, the one with the greatest
number. -/
structure IsChosen (ctx : Context S) (now : Timestamp) (c : Coordinator S ρ) (pid : UInt32)
    (record : MemberRecord) : Prop where
  candidate : c.IsCandidate ctx now pid record
  latest : ∀ q other, c.IsCandidate ctx now q other →
    Heard.NotAfter ⟨other.lastHeard, q⟩ ⟨record.lastHeard, pid⟩

variable {ctx : Context S} {now : Timestamp} {e : Stimulus S} {c c' : Coordinator S ρ}
  {past : List (Emission S)} {pid : UInt32} {record : MemberRecord}
  {r : Except NodeError (List (Message S)) × Coordinator S ρ}

theorem isMemberRecord_iff : c.isMemberRecord record = true ↔
    record.joined = true ∧ ∃ id slot, record.slot = some (id, slot) ∧ id ∈ c.groups := by
  simp only [isMemberRecord, Bool.and_eq_true, Option.any_eq_true, decide_eq_true_eq, Prod.exists]

/-- The candidates are the suitable records that are left when the stale ones go. -/
theorem isCandidate_iff (h : c.liveness.IsIndexed) : c.IsCandidate ctx now pid record ↔
    (c.forgetStale ctx now).liveness.get? pid = some record ∧
      c.isMemberRecord record = true := by
  rw [forgetStale, h.get?_evictStale, isMemberRecord_iff, Liveness.IsStale]
  constructor
  · rintro ⟨known, joined, seated, alive⟩
    exact ⟨⟨known, Nat.not_lt.2 alive⟩, joined, seated⟩
  · rintro ⟨⟨known, alive⟩, joined, seated⟩
    exact ⟨known, joined, seated, Nat.not_lt.1 alive⟩

theorem dispatcher_forgetStale (ctx : Context S) (now : Timestamp) (c : Coordinator S ρ) :
    (c.forgetStale ctx now).dispatcher = c.dispatcher ∨
      (c.forgetStale ctx now).dispatcher = none := by
  unfold forgetStale
  cases c.dispatcher with
  | none => exact .inl rfl
  | some pid =>
    simp only [Option.filter_some]
    split
    · exact .inl rfl
    · exact .inr rfl

/-- **Who is asked.** If there is no candidate, nobody is, and whoever was asked before may have
been evicted. Otherwise the candidate heard last is asked. -/
theorem Ticks.settles (h : Ticks ctx now c .keyEncapNotify r) (hindexed : c.liveness.IsIndexed) :
    r.2.liveness.IsIndexed ∧
      ((emitted r.1 = [] ∧ (r.2.dispatcher = c.dispatcher ∨ r.2.dispatcher = none) ∧
          ∀ pid record, ¬c.IsCandidate ctx now pid record) ∨
        ∃ request record, emitted r.1 = [.keyEncapNotify request] ∧
          r.2.dispatcher = some request.pid ∧ c.IsChosen ctx now request.pid record) := by
  have hleft : (c.forgetStale ctx now).liveness.IsIndexed :=
    hindexed.evictStale now ctx.config.livenessTimeout
  cases h with
  | nobody nobody =>
    refine ⟨hleft, .inl ⟨rfl, dispatcher_forgetStale ctx now c, fun pid record hmay => ?_⟩⟩
    obtain ⟨hrecord, hsuits⟩ := (isCandidate_iff hindexed).1 hmay
    have hunfit : c.isMemberRecord record = false := hleft.unfit_of_mostRecent? nobody hrecord
    simp [hunfit] at hsuits
  | @asked target recent =>
    obtain ⟨record, hrecent⟩ := hleft.isMostRecent recent
    have hmay := (isCandidate_iff hindexed).2 ⟨hrecent.get, hrecent.suits⟩
    refine ⟨hleft, .inr ⟨_, record, rfl, rfl, hmay, fun q other hother => ?_⟩⟩
    obtain ⟨hknown, hsuits⟩ := (isCandidate_iff hindexed).1 hother
    exact hrecent.latest q other hknown hsuits

/-! ## Steps -/

/-- The kinds of messages that ask for a key and answer that. -/
def dispatchKinds : List MessageKind := [.keyEncapNotify, .keyEncap]

/-- A step by what it does about requests. -/
inductive Dispatches (ctx : Context S) (e : Stimulus S) (c : Coordinator S ρ) :
    Except NodeError (List (Message S)) × Coordinator S ρ → Prop
  /-- The step has nothing to do with them. -/
  | aside {r : Except NodeError (List (Message S)) × Coordinator S ρ}
      (dispatcher : r.2.dispatcher = c.dispatcher)
      (indexed : c.liveness.IsIndexed → r.2.liveness.IsIndexed)
      (unrelated : ∀ m ∈ emitted r.1, m.kind ∉ dispatchKinds) : Dispatches ctx e c r
  /-- A member is to be asked. -/
  | asked {r : Except NodeError (List (Message S)) × Coordinator S ρ}
      (ticks : Ticks ctx e.now c .keyEncapNotify r) : Dispatches ctx e c r
  /-- The member that was asked has answered. -/
  | answered {c' : Coordinator S ρ} (d : Distribution S) (arrived : e.Carries ctx (.keyEncap d))
      (asked : c.dispatcher = some d.pid) (closed : c'.dispatcher = none)
      (liveness : c'.liveness = c.liveness) : Dispatches ctx e c (.ok [.keyEncap d], c')

theorem indexed_rest (h : c.liveness.IsIndexed) (now : Timestamp) :
    (c.rest now).liveness.IsIndexed := by
  unfold rest abandonAssignment
  cases c.assignment with
  | none => exact h
  | some stuck => exact h.remove stuck.pid

theorem indexed_note (h : c.liveness.IsIndexed) (now : Timestamp) (ack : HeartbeatAck) :
    (c.note now ack).liveness.IsIndexed := by
  have htouch := h.touch ack.pid now ack.phase
  unfold note
  by_cases hunset : ack.phase = .unset
  · simp only [if_pos hunset]
    exact htouch.assign _ _ _
  · simp only [if_neg hunset]
    exact htouch

theorem Dispatches.answered_of_mem (h : Dispatches ctx e c r) (hindexed : c.liveness.IsIndexed)
    {d : Distribution S} (hd : .keyEncap d ∈ emitted r.1) :
    e.Carries ctx (.keyEncap d) ∧ c.dispatcher = some d.pid := by
  cases h with
  | aside _ _ unrelated => exact absurd (by simp [Message.kind, dispatchKinds]) (unrelated _ hd)
  | asked ticks =>
    obtain ⟨-, ⟨hsent, -⟩ | ⟨_, _, hsent, -⟩⟩ := ticks.settles hindexed <;> simp [hsent] at hd
  | answered d' arrived asked =>
    obtain rfl := Message.keyEncap.inj (List.mem_singleton.1 hd)
    exact ⟨arrived, asked⟩

theorem Dispatches.exists_isChosen_of_mem (h : Dispatches ctx e c r)
    (hindexed : c.liveness.IsIndexed) {request : DispatchRequest}
    (hrequest : .keyEncapNotify request ∈ emitted r.1) :
    ∃ record, c.IsChosen ctx e.now request.pid record := by
  cases h with
  | aside _ _ unrelated =>
    exact absurd (by simp [Message.kind, dispatchKinds]) (unrelated _ hrequest)
  | asked ticks =>
    obtain ⟨-, ⟨hsent, -⟩ | ⟨request', record, hsent, -, hchosen⟩⟩ := ticks.settles hindexed
    · simp [hsent] at hrequest
    · rw [hsent, List.mem_singleton] at hrequest
      obtain rfl := Message.keyEncapNotify.inj hrequest
      exact ⟨record, hchosen⟩
  | answered => simp [emitted] at hrequest

/-! ## The last request -/

/-- The last of the requests and the keys that answered one is a request to the member. -/
def Requested (past : List (Emission S)) (pid : UInt32) : Prop :=
  ∃ y request, last? dispatchKinds past = some y ∧ y.message = .keyEncapNotify request ∧
    request.pid = pid

/-- The coordinator knows whom it asked last, and its records of members are in order. -/
structure Attends (past : List (Emission S)) (c : Coordinator S ρ) : Prop where
  indexed : c.liveness.IsIndexed
  requested : ∀ pid, c.dispatcher = some pid → Requested past pid

theorem Attends.step (h : Attends past c) (hr : Dispatches ctx e c r) :
    Attends (past ++ (emitted r.1).map (⟨e, ·⟩)) r.2 := by
  cases hr with
  | aside dispatcher indexed unrelated =>
    refine ⟨indexed h.indexed, fun pid hpid => ?_⟩
    have hlast : last? dispatchKinds (past ++ (emitted r.1).map (⟨e, ·⟩)) =
        last? dispatchKinds past := by
      refine last?_append fun x hx => ?_
      obtain ⟨m, hm, rfl⟩ := List.mem_map.1 hx
      exact unrelated m hm
    rw [Requested, hlast]
    exact h.requested pid (dispatcher ▸ hpid)
  | asked ticks =>
    obtain ⟨hindexed, houtcome⟩ := ticks.settles h.indexed
    refine ⟨hindexed, fun pid hpid => ?_⟩
    rcases houtcome with ⟨hsilent, hlapsed, -⟩ | ⟨request, record, hsent, htarget, -⟩
    · rw [hsilent, List.map_nil, List.append_nil]
      rcases hlapsed with hsame | hnone
      · exact h.requested pid (hsame ▸ hpid)
      · simp [hnone] at hpid
    · let x : Emission S := ⟨e, .keyEncapNotify request⟩
      have hx : x.kind = .keyEncapNotify := rfl
      rw [hsent]
      exact ⟨x, request, last?_snoc hx (by decide), rfl,
        Option.some.inj (htarget.symm.trans hpid)⟩
  | answered d arrived asked closed liveness =>
    exact ⟨liveness ▸ h.indexed, by simp [closed]⟩

theorem attends_new {pid : UInt32} {secrets : SlotSecrets S} {generator : ρ}
    (h : Coordinator.new ctx pid secrets generator = .ok c) : Attends [] c := by
  obtain ⟨tier, -, rfl⟩ := eq_of_new h
  exact ⟨Liveness.isIndexed_empty, by simp⟩

/-! ## Runs -/

variable [Generator ρ]

theorem Reacts.dispatches (h : Reacts ctx e c r) : Dispatches ctx e c r := by
  cases h with
  | unread => exact .aside rfl id (by simp [emitted])
  | handled arrived h =>
    cases h with
    | noted => exact .aside rfl (fun h => indexed_note h e.now _) (by simp [emitted])
    | placed =>
      exact .aside rfl (fun h => (indexed_note h e.now _).assign _ _ _)
        (by simp [emitted, Message.kind, dispatchKinds])
    | dropped | early | lost | refuted | unseated => exact .aside rfl id (by simp [emitted])
    | seated =>
      exact .aside rfl (fun h => (h.touch _ _ _).assign _ _ _)
        (by simp [emitted, Message.kind, dispatchKinds])
    | answered asked => exact .answered _ arrived asked rfl rfl
    | proposed => exact .aside rfl id (by simp [emitted, Message.kind, dispatchKinds])
  | @ticked timer r fired h =>
    cases timer with
    | heartbeat =>
      cases h with
      | stalled => exact .aside rfl (fun h => indexed_rest h e.now) (by simp [emitted])
      | continued | founded =>
        exact .aside rfl (fun h => indexed_rest h e.now)
          (by simp [emitted, Message.kind, dispatchKinds])
    | keyEncapNotify => exact .asked h
    | keyUpdate =>
      cases h
      exact .aside rfl id (by simp [emitted])

/-- **Every step leaves requests aside, asks a member, or closes the request of one.** -/
theorem dispatches_react (ctx : Context S) (e : Stimulus S) (c : Coordinator S ρ) :
    Dispatches ctx e c (c.react ctx e) :=
  (reacts_react ctx e c).dispatches

theorem Attends.run (h : Attends past c) (events : List (Stimulus S)) :
    Attends (past ++ emissions ctx c events) (c.run ctx events) :=
  emissions_induction (fun c e _ h => h.step (dispatches_react ctx e c)) h events

/-- **A request is answered at most once, by the member that was asked.** Let a new coordinator take
any steps. A key that it then relays as the answer to a request has just arrived, and of the
requests and answers before it the last is a request to the member that it is from. If it then sends
a request, it is to a joined member with a slot in a group that is held, heard within the timeout;
and no other such member was heard after it, or at the same time and has a greater number. When it
is time for a request, one is sent if there is any such member. -/
theorem request_answered_once {pid : UInt32} {secrets : SlotSecrets S} {generator : ρ}
    (hnew : Coordinator.new ctx pid secrets generator = .ok c) (events : List (Stimulus S))
    (e : Stimulus S) :
    let s := c.run ctx events
    let sent := emitted (s.react ctx e).1
    (∀ d, .keyEncap d ∈ sent → e.Carries ctx (.keyEncap d) ∧
      Requested (emissions ctx c events) d.pid) ∧
    (∀ request, .keyEncapNotify request ∈ sent →
      ∃ record, s.IsChosen ctx e.now request.pid record) ∧
    (e.input = .timer .keyEncapNotify →
      (sent = [] ↔ ∀ pid record, ¬s.IsCandidate ctx e.now pid record)) := by
  intro s sent
  have hattends : Attends (emissions ctx c events) s := (attends_new hnew).run events
  have hstep : Dispatches ctx e s (s.react ctx e) := dispatches_react ctx e s
  refine ⟨fun d hd => ?_, fun request hrequest => ?_, fun hfired => ?_⟩
  · obtain ⟨arrived, hwaiting⟩ := hstep.answered_of_mem hattends.indexed hd
    exact ⟨arrived, hattends.requested _ hwaiting⟩
  · exact hstep.exists_isChosen_of_mem hattends.indexed hrequest
  · have hticks : Ticks ctx e.now s .keyEncapNotify (s.react ctx e) := ticks_react hfired
    obtain ⟨-, ⟨hnil, -, hnobody⟩ | ⟨request, record, hone, -, hchosen⟩⟩ :=
      hticks.settles hattends.indexed
    · exact iff_of_true hnil hnobody
    · exact iff_of_false (by simp [sent, hone]) fun hnobody => hnobody _ _ hchosen.candidate

/-! ### One request -/

/-- It is time for a request. -/
def sampleRequest : Stimulus .sample := ⟨.empty, ⟨4000⟩, .timer .keyEncapNotify⟩

/-- A key from member 1 arrives, encrypted to no group. -/
def sampleAnswer : Stimulus .sample := ⟨.empty, ⟨5000⟩,
  .frame (Message.encode (S := .sample) (.keyEncap ⟨1, ⟨1, ⟨5000⟩, .zero⟩, [], ⟨0, []⟩⟩))⟩

/-- Member 1 has joined, is asked for a key and answers. -/
theorem request_answered_once_member :
    ∃ events record d, sampleJoin? = some events ∧
      (sampleNew.run sampleContext events).IsChosen sampleContext ⟨4000⟩ 1 record ∧
      .keyEncap d ∈ emitted ((sampleNew.run sampleContext (events ++ [sampleRequest])).react
        sampleContext sampleAnswer).1 ∧
      d.pid = 1 ∧ Requested (emissions sampleContext sampleNew (events ++ [sampleRequest])) 1 := by
  have hrun : (sampleJoin?.any fun events =>
      let s := sampleNew.run sampleContext events
      ((emitted (s.react sampleContext sampleRequest).1).any fun m => match m with
        | .keyEncapNotify request => decide (request.pid = 1)
        | _ => false) &&
      (emitted ((sampleNew.run sampleContext (events ++ [sampleRequest])).react
        sampleContext sampleAnswer).1).any fun m => match m with
        | .keyEncap d => decide (d.pid = 1)
        | _ => false) = true := by
    decide +kernel
  obtain ⟨events, hevents, hrun⟩ := (Option.any_eq_true _ _).1 hrun
  simp only [Bool.and_eq_true, List.any_eq_true] at hrun
  obtain ⟨⟨asking, hasking, hask⟩, ⟨answer, hanswer, hpid⟩⟩ := hrun
  have hnew : Coordinator.new sampleContext 0 sampleSetup.2 (Counter.mk 5) = .ok sampleNew :=
    eq_ok_of_toOption (by decide +kernel)
  obtain ⟨-, hchosen, -⟩ := request_answered_once hnew events sampleRequest
  obtain ⟨hanswered, -⟩ := request_answered_once hnew (events ++ [sampleRequest]) sampleAnswer
  split at hask
  · next request =>
    split at hpid
    · next d =>
      obtain ⟨record, hrecord⟩ := hchosen request hasking
      have hd := of_decide_eq_true hpid
      rw [of_decide_eq_true hask] at hrecord
      exact ⟨events, record, d, hevents, hrecord, hanswer, hd, hd ▸ (hanswered d hanswer).2⟩
    · simp at hpid
  · simp at hask

end GroupKey.Coordinator
