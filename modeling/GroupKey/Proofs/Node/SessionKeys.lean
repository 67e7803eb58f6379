import GroupKey.Proofs.Node.Broadcast
import GroupKey.Proofs.Node.Coordinator
import GroupKey.Proofs.Node.MemberBook
import GroupKey.Proofs.Session.Retention
import GroupKey.Proofs.Suite.Exponents
import Mathlib.Data.List.Nodup

/-!
# Session keys that all nodes agree on

The coordinator accepts one session key after the other, each of a higher version. It announces the
last one in its heartbeats and acknowledgements, and a node adopts a key only if it was announced.
So every adopted key is one that the coordinator accepted, whatever becomes of the frames on their
way, and two nodes that are at the same version have the same key.

* `Recorded` — a network over its medium, with the fingerprints accepted so far.
* `Recorded.Agreed` — the invariant of these runs: all books are backed by what was accepted, and so
  are all announcements on their way.
* `session_agreement` — what it means for the adopted keys.
-/

namespace GroupKey

variable {S : Suite} {ρ : Type} {log : List Fingerprint}

/-- What a message announces was accepted. -/
def Message.Truthful (log : List Fingerprint) (m : Message S) : Prop :=
  ∀ f, m.announced? = some f → 0 < f.version → Vouched log f

theorem Message.Truthful.mono {m : Message S} (h : m.Truthful log) {log' : List Fingerprint}
    (hsub : log ⊆ log') : m.Truthful log' :=
  fun f hf hpos => (h f hf hpos).mono hsub

theorem Message.Truthful.of_decode {p : Parameters S} {m m' : Message S} (h : m.Truthful log)
    (hm : decode p m.encode = .ok m') : m'.Truthful log := by
  intro f hf hpos
  rw [announced?_of_decode hm, Option.map_eq_some_iff] at hf
  obtain ⟨g, hg, rfl⟩ := hf
  obtain ⟨a, ha, hversion, hdigest⟩ := h g hg hpos
  have hdigest' : (Read.received g).digest = g.digest := if_pos hpos
  exact ⟨a, ha, hversion, hdigest.trans hdigest'.symm⟩

/-! ## The books of members -/

namespace Member

variable {m : Member S ρ}

theorem MaySend.announced? {x : Message S} (h : m.MaySend x) : x.announced? = none := by
  cases x with
  | heartbeat _ => exact absurd h id
  | keyUpdateAck _ => exact absurd h id
  | _ => rfl

variable [Generator ρ]

/-- **Whatever a member receives, its book stays backed**, if announcements are truthful. -/
theorem backed_handle (h : m.session.Backed log) (ctx : Context S) (now : Timestamp)
    {msg : Message S} (hmsg : msg.Truthful log) (directory : Directory S) :
    (m.handle ctx now msg directory).2.1.session.Backed log :=
  (told_handle ctx now msg directory).backed h hmsg

theorem backed_tick (h : m.session.Backed log) (ctx : Context S) (now : Timestamp) (timer : Timer) :
    (m.tick ctx now timer).2.session.Backed log :=
  (told_tick ctx now timer m).backed h fun _ hfalse => hfalse.elim

end Member

/-! ## The book of the coordinator -/

/-- The fingerprint of a key that a message distributes. -/
def Message.distributed? : Message S → Option Fingerprint
  | .keyEncap d | .keyUpdate d => some d.fingerprint
  | .heartbeat _ | .heartbeatAck _ | .notifyPosition _ | .join _ | .joinAck _ | .keyEncapNotify _
  | .keyUpdateAck _ => none

namespace Coordinator

/-- The fingerprints of the keys that an answer relays. -/
def relayed : Except NodeError (List (Message S)) → List Fingerprint
  | .ok ms => ms.filterMap Message.distributed?
  | .error _ => []

/-- A step that accepts no key. -/
structure Idle (c : Coordinator S ρ) (r : Except NodeError (List (Message S)) × Coordinator S ρ) :
    Prop where
  accepted : r.2.accepted = c.accepted
  session : r.2.session = c.session
  relayed : relayed r.1 = []
  announced : ∀ ms, r.1 = .ok ms → ∀ x ∈ ms, ∀ f, x.announced? = some f → f = c.accepted

/-- A step that accepts the key with the fingerprint `f`, which is newer than the last one. -/
structure Accepts (c : Coordinator S ρ) (f : Fingerprint)
    (r : Except NodeError (List (Message S)) × Coordinator S ρ) : Prop where
  newer : f.IsNewer c.accepted
  accepted : r.2.accepted = f
  session : ∃ b, (b = c.session ∨ ∃ key, b = (c.session.offer S.hash f key).2) ∧
    r.2.session = (b.observe f).2
  relayed : relayed r.1 = [f]
  announced : ∀ ms, r.1 = .ok ms → ∀ x ∈ ms, ∀ g, x.announced? = some g → g = f

theorem session_accept (ctx : Context S) (now : Timestamp) (d : Distribution S)
    (c : Coordinator S ρ) :
    ∃ b, (b = c.session ∨ ∃ key, b = (c.session.offer S.hash d.fingerprint key).2) ∧
      (accept ctx now d c).session = (b.observe d.fingerprint).2 := by
  unfold accept
  cases recoverFrom ctx c d.fingerprint d.ciphertext 0 d.groups with
  | none => exact ⟨_, Or.inl rfl, rfl⟩
  | some key => exact ⟨_, Or.inr ⟨key, rfl⟩, rfl⟩

theorem Idle.ok {c c' : Coordinator S ρ} {ms : List (Message S)}
    (haccepted : c'.accepted = c.accepted) (hsession : c'.session = c.session)
    (hms : ∀ x ∈ ms, x.distributed? = none ∧ ∀ f, x.announced? = some f → f = c.accepted) :
    Idle c (.ok ms, c') := by
  refine ⟨haccepted, hsession, ?_, ?_⟩
  · show ms.filterMap Message.distributed? = []
    rw [List.filterMap_eq_nil_iff]
    exact fun x hx => (hms x hx).1
  · intro ms' h x hx
    obtain rfl := Except.ok.inj h
    exact (hms x hx).2

theorem Idle.nil {c c' : Coordinator S ρ} (haccepted : c'.accepted = c.accepted)
    (hsession : c'.session = c.session) : Idle c (.ok [], c') :=
  Idle.ok haccepted hsession fun _ h => absurd h List.not_mem_nil

theorem Idle.error {c c' : Coordinator S ρ} (e : NodeError) (haccepted : c'.accepted = c.accepted)
    (hsession : c'.session = c.session) : Idle c (.error e, c') :=
  ⟨haccepted, hsession, rfl, fun _ h => by simp at h⟩

variable [Generator ρ] {ctx : Context S} {e : Stimulus S} {c : Coordinator S ρ}
  {r : Except NodeError (List (Message S)) × Coordinator S ρ}

theorem Reacts.idle_or_accepts (h : Reacts ctx e c r) : Idle c r ∨ ∃ f, Accepts c f r := by
  cases h with
  | unread => exact .inl (.nil rfl rfl)
  | handled arrived h =>
    cases h with
    | noted | dropped | early | refuted => exact .inl (.nil rfl rfl)
    | lost | unseated => exact .inl (.error _ rfl rfl)
    | placed | seated =>
      exact .inl (.ok rfl rfl (by simp [Message.distributed?, Message.announced?]))
    | @answered d asked fresh =>
      refine .inr ⟨d.fingerprint, fresh.1, rfl,
        session_accept ctx e.now d { c with dispatcher := none }, rfl, ?_⟩
      simp [Message.announced?]
    | @proposed d fresh unlimited =>
      refine .inr ⟨d.fingerprint, fresh.1, rfl, session_accept ctx e.now d c, rfl, ?_⟩
      simp [Message.announced?]
  | ticked fired h =>
    cases h with
    | stalled => exact .inl (.error _ rfl rfl)
    | continued | founded =>
      -- The heartbeat announces the key that was accepted last.
      refine .inl (.ok rfl rfl fun x hx => ?_)
      obtain rfl := List.mem_singleton.1 hx
      exact ⟨rfl, fun f hf => (Option.some.inj hf).symm⟩
    | nobody | foreign => exact .inl (.nil rfl rfl)
    | asked => exact .inl (.ok rfl rfl (by simp [Message.distributed?, Message.announced?]))

/-- **Every step accepts one newer key or none.** -/
theorem react_idle_or_accepts (ctx : Context S) (e : Stimulus S) (c : Coordinator S ρ) :
    Idle c (c.react ctx e) ∨ ∃ f, Accepts c f (c.react ctx e) :=
  (reacts_react ctx e c).idle_or_accepts

end Coordinator

/-! ## Networks -/

/-- The books of all nodes. -/
def Network.books (n : Network S ρ) : List KeyBook :=
  n.coordinator.session :: n.members.map (·.session)

theorem Network.truthful_of_mem {ctx : Context S} {result : Except NodeError (List (Message S))}
    (h : ∀ ms, result = .ok ms → ∀ x ∈ ms, x.Truthful log) {frame : Bytes}
    (hframe : frame ∈ sent (frames result)) {m : Message S} (hm : ctx.decode? frame = some m) :
    m.Truthful log := by
  obtain ⟨ms, hms, x, hx, rfl⟩ := mem_sent hframe
  unfold Context.decode? at hm
  split at hm
  · next hdecode => exact (h ms hms x hx).of_decode (Option.some.inj hm ▸ hdecode)
  · simp at hm

/-- A network over its medium with the fingerprints that were accepted, in order. -/
structure Recorded (S : Suite) (ρ : Type) extends Broadcast S ρ where
  accepted : List Fingerprint

namespace Recorded

/-- Everything that is known or on its way about accepted keys is true. -/
structure Agreed (w : Recorded S ρ) : Prop where
  increasing : (w.accepted.map Fingerprint.version).Pairwise (· < ·)
  bound : ∀ f ∈ w.accepted, f.version ≤ w.network.coordinator.accepted.version
  latest : 0 < w.network.coordinator.accepted.version →
    w.network.coordinator.accepted ∈ w.accepted
  backed : ∀ b ∈ w.network.books, b.Backed w.accepted
  truthful : ∀ frame ∈ w.sent, ∀ m, w.network.context.decode? frame = some m →
    m.Truthful w.accepted

variable {w : Recorded S ρ}

/-- A member may be replaced by one whose book is backed, if it announces nothing. -/
theorem Agreed.member (h : w.Agreed) (i : Nat) {m : Member S ρ} (hm : m.session.Backed w.accepted)
    (directory : Directory S) {result : Except NodeError (List (Message S))}
    (hresult : ∀ ms, result = .ok ms → ∀ x ∈ ms, x.announced? = none) :
    Agreed ⟨⟨{ w.network with members := w.network.members.set i m, directory },
      w.sent ++ Network.sent (Network.frames result)⟩, w.accepted⟩ := by
  refine ⟨h.increasing, h.bound, h.latest, ?_, ?_⟩
  · intro b hb
    rcases List.mem_cons.1 hb with rfl | hb
    · exact h.backed _ List.mem_cons_self
    · obtain ⟨m', hm', rfl⟩ := List.mem_map.1 hb
      rcases List.mem_or_eq_of_mem_set hm' with hm' | rfl
      · exact h.backed _ (List.mem_cons_of_mem _ (List.mem_map_of_mem hm'))
      · exact hm
  · intro frame hframe x hx
    rcases List.mem_append.1 hframe with hframe | hframe
    · exact h.truthful frame hframe x hx
    · refine Network.truthful_of_mem (fun ms hms y hy f hf => ?_) hframe hx
      rw [hresult ms hms y hy] at hf
      simp at hf

theorem agreed_start {context : Context S} {n : Network S ρ} (h : n.IsNew context) :
    Agreed ⟨.start n, []⟩ := by
  refine ⟨List.Pairwise.nil, by simp, ?_, ?_, fun _ hframe => absurd hframe List.not_mem_nil⟩
  · intro hpos
    have hpos : 0 < n.coordinator.accepted.version := hpos
    rw [h.accepted] at hpos
    exact absurd hpos (by decide)
  · intro b hb
    rcases List.mem_cons.1 hb with rfl | hb
    · have hempty : KeyBook.Backed [] n.coordinator.session := h.session ▸ KeyBook.backed_empty []
      exact hempty
    · obtain ⟨m, hm, rfl⟩ := List.mem_map.1 hb
      rw [(h.members m hm).2.2]
      exact KeyBook.backed_empty []

end Recorded

variable [Generator ρ]

/-- The fingerprints of the keys that the coordinator accepts in an action, which are those it
relays. -/
def Broadcast.accepts (a : Network.Action) (b : Broadcast S ρ) : List Fingerprint :=
  let n := b.network
  match a with
  | .deliver 0 index =>
    match b.sent[index]? with
    | some frame => Coordinator.relayed (n.coordinator.receive n.context n.directory n.now frame).1
    | none => []
  | .tick 0 timer => Coordinator.relayed (n.coordinator.tick n.context n.now timer).1
  | .clock _ | .tick _ _ | .deliver _ _ => []

namespace Recorded

variable {w : Recorded S ρ}

/-- The record after an action. -/
def step (w : Recorded S ρ) (a : Network.Action) : Recorded S ρ :=
  ⟨w.toBroadcast.step a, w.accepted ++ w.toBroadcast.accepts a⟩

/-- The record after a list of actions. -/
def run (n : Network S ρ) (actions : List Network.Action) : Recorded S ρ :=
  actions.foldl step ⟨.start n, []⟩

/-- The coordinator may take any step, if what it accepts is recorded. -/
theorem Agreed.coordinator (h : w.Agreed) (e : Coordinator.Stimulus S) :
    Agreed ⟨⟨{ w.network with
        coordinator := (w.network.coordinator.react w.network.context e).2 },
      w.sent ++ Network.sent (Network.frames (w.network.coordinator.react w.network.context e).1)⟩,
      w.accepted ++
        Coordinator.relayed (w.network.coordinator.react w.network.context e).1⟩ := by
  rcases Coordinator.react_idle_or_accepts w.network.context e w.network.coordinator with
    hidle | ⟨f, hf⟩
  · rw [hidle.relayed, List.append_nil]
    refine ⟨h.increasing, ?_, ?_, ?_, ?_⟩
    -- An idle answer leaves the books and the last key as they are.
    · show ∀ f ∈ w.accepted, f.version ≤ Fingerprint.version (Coordinator.accepted _)
      rw [hidle.accepted]
      exact h.bound
    · show 0 < Fingerprint.version (Coordinator.accepted _) → Coordinator.accepted _ ∈ w.accepted
      rw [hidle.accepted]
      exact h.latest
    · intro b hb
      rcases List.mem_cons.1 hb with rfl | hb
      · rw [hidle.session]
        exact h.backed _ List.mem_cons_self
      · exact h.backed _ (List.mem_cons_of_mem _ hb)
    · intro frame hframe x hx
      rcases List.mem_append.1 hframe with hframe | hframe
      · exact h.truthful frame hframe x hx
      · refine Network.truthful_of_mem (fun ms hms y hy g hg hpos => ?_) hframe hx
        rw [hidle.announced ms hms y hy g hg] at hpos ⊢
        exact ⟨_, h.latest hpos, rfl, rfl⟩
  -- A key that is accepted is newer than all before it.
  · rw [hf.relayed]
    have hsub : w.accepted ⊆ w.accepted ++ [f] := List.subset_append_left _ _
    have hmem : f ∈ w.accepted ++ [f] := List.mem_append_right _ (List.mem_singleton_self f)
    have hlt : ∀ a ∈ w.accepted, a.version < f.version := fun a ha =>
      UInt32.lt_of_le_of_lt (h.bound a ha) hf.newer
    refine ⟨?_, ?_, ?_, ?_, ?_⟩
    · rw [List.map_append, List.map_singleton, List.pairwise_append]
      refine ⟨h.increasing, List.pairwise_singleton _ _, fun v hv v' hv' => ?_⟩
      obtain ⟨a, ha, rfl⟩ := List.mem_map.1 hv
      obtain rfl := List.mem_singleton.1 hv'
      exact hlt a ha
    · intro a ha
      show a.version ≤ Fingerprint.version (Coordinator.accepted _)
      rw [hf.accepted]
      rcases List.mem_append.1 ha with ha | ha
      · exact UInt32.le_of_lt (hlt a ha)
      · exact List.mem_singleton.1 ha ▸ UInt32.le_refl _
    · intro _
      show Coordinator.accepted _ ∈ w.accepted ++ [f]
      rw [hf.accepted]
      exact hmem
    · intro b hb
      rcases List.mem_cons.1 hb with rfl | hb
      · obtain ⟨b, hb, hsession⟩ := hf.session
        rw [hsession]
        have hc := (h.backed _ List.mem_cons_self).mono hsub
        -- The bytes may have been offered before, which needs no support.
        refine KeyBook.Backed.observe ?_ fun _ => ⟨f, hmem, rfl, rfl⟩
        rcases hb with rfl | ⟨key, rfl⟩
        · exact hc
        · exact hc.offer S.hash f key
      · exact (h.backed _ (List.mem_cons_of_mem _ hb)).mono hsub
    · intro frame hframe x hx
      rcases List.mem_append.1 hframe with hframe | hframe
      · exact (h.truthful frame hframe x hx).mono hsub
      · refine Network.truthful_of_mem (fun ms hms y hy g hg _ => ?_) hframe hx
        rw [hf.announced ms hms y hy g hg]
        exact ⟨f, hmem, rfl, rfl⟩

/-- **Every step keeps the agreement.** -/
theorem Agreed.step (h : w.Agreed) (a : Network.Action) : (w.step a).Agreed := by
  have hrest : Agreed ⟨⟨w.network, w.sent ++ []⟩, w.accepted ++ []⟩ := by
    rw [List.append_nil, List.append_nil]
    exact h
  have hbook : ∀ {i : Nat} {m : Member S ρ}, w.network.members[i]? = some m →
      m.session.Backed w.accepted := fun hm =>
    h.backed _ (List.mem_cons_of_mem _ (List.mem_map_of_mem (List.mem_of_getElem? hm)))
  cases a with
  | clock now =>
    exact ⟨hrest.increasing, hrest.bound, hrest.latest, hrest.backed, hrest.truthful⟩
  | tick node timer =>
    cases node with
    | zero => exact h.coordinator ⟨w.network.directory, w.network.now, .timer timer⟩
    | succ i =>
      simp only [Recorded.step, Broadcast.step, Broadcast.act, Network.tick, Broadcast.accepts]
      cases hm : w.network.members[i]? with
      | none => exact hrest
      | some m =>
        simp only [List.append_nil]
        refine h.member i (m.backed_tick (hbook hm) _ _ timer) w.network.directory ?_
        intro ms hms
        obtain rfl := Except.ok.inj hms
        exact fun x hx => (m.maySend_tick _ _ timer x hx).announced?
  | deliver node index =>
    cases hframe : w.sent[index]? with
    | none =>
      have hstay : w.step (.deliver node index) =
          ⟨⟨w.network, w.sent ++ []⟩, w.accepted ++ []⟩ := by
        cases node <;> simp [Recorded.step, Broadcast.step, Broadcast.act, Broadcast.accepts,
          Network.sent, hframe]
      rw [hstay]
      exact hrest
    | some frame =>
      cases node with
      | zero =>
        simp only [Recorded.step, Broadcast.step, Broadcast.act, Broadcast.accepts, hframe]
        exact h.coordinator ⟨w.network.directory, w.network.now, .frame frame⟩
      | succ i =>
        simp only [Recorded.step, Broadcast.step, Broadcast.act, Broadcast.accepts, hframe,
          Network.deliver]
        cases hm : w.network.members[i]? with
        | none => exact hrest
        | some m =>
          simp only [List.append_nil, Member.receive]
          cases hmsg : w.network.context.decode? frame with
          | none =>
            exact h.member i (hbook hm) w.network.directory fun ms hms => by
              obtain rfl := Except.ok.inj hms
              simp
          | some msg =>
            -- A frame that arrives was sent, so what it announces was accepted.
            have hsent := h.truthful frame (List.mem_of_getElem? hframe) msg hmsg
            exact h.member i (m.backed_handle (hbook hm) _ _ hsent _) _ fun ms hms =>
              fun x hx => (m.maySend_handle _ _ msg _ hms x hx).announced?

theorem Agreed.run {n : Network S ρ} (hstart : Agreed ⟨.start n, []⟩)
    (actions : List Network.Action) : (run n actions).Agreed := by
  suffices h : ∀ w : Recorded S ρ, w.Agreed → (actions.foldl Recorded.step w).Agreed from
    h _ hstart
  induction actions with
  | nil => exact fun _ hw => hw
  | cons a actions ih => exact fun w hw => ih _ (hw.step a)

end Recorded

/-- **Session keys are agreed upon.** Let a network of new nodes run over a medium that may lose,
delay, reorder and repeat frames. The versions that the coordinator accepts increase. A key that a
node has adopted has the version and the hash of one that the coordinator has accepted. So two nodes
that are at the same version have the same hash. -/
theorem session_agreement {context : Context S} {now : Timestamp} {directory : Directory S}
    {coordinator : UInt32 × ρ} {secrets : SlotSecrets S} {members : List (UInt32 × ρ)}
    {n : Network S ρ}
    (hn : Network.assemble context now directory coordinator secrets members = .ok n)
    (actions : List Network.Action) :
    let w := Recorded.run n actions
    (w.accepted.map Fingerprint.version).Pairwise (· < ·) ∧
      (∀ b ∈ w.network.books, 0 < b.current.version →
        ∃ f ∈ w.accepted, f.version = b.current.version ∧ f.digest = b.current.digest) ∧
      ∀ b ∈ w.network.books, ∀ b' ∈ w.network.books, b.current.version = b'.current.version →
        b.current.digest = b'.current.digest := by
  intro w
  have hagreed : w.Agreed := (Recorded.agreed_start (Network.isNew_assemble hn)).run actions
  have hvouched : ∀ b ∈ w.network.books, 0 < b.current.version → Vouched w.accepted b.current := by
    intro b hb hpos
    rcases (hagreed.backed b hb).current with hzero | hadopted
    · rw [hzero] at hpos
      exact absurd hpos (by decide)
    · exact hadopted.2
  refine ⟨hagreed.increasing, hvouched, ?_⟩
  intro b hb b' hb' heq
  rcases (hagreed.backed b hb).current with hzero | ⟨hpos, -⟩
  · rcases (hagreed.backed b' hb').current with hzero' | ⟨hpos, -⟩
    · rw [hzero, hzero']
    · rw [← heq, hzero] at hpos
      exact absurd hpos (by decide)
  · obtain ⟨f, hf, hversion, hdigest⟩ := hvouched b hb hpos
    obtain ⟨f', hf', hversion', hdigest'⟩ := hvouched b' hb' (heq ▸ hpos)
    have hnodup : (w.accepted.map Fingerprint.version).Nodup :=
      hagreed.increasing.imp fun hlt => UInt32.ne_of_lt hlt
    have hsame : f = f' := List.inj_on_of_nodup_map hnodup hf hf'
      (hversion.trans (heq.trans hversion'.symm))
    rw [← hdigest, ← hdigest', hsame]

/-- A coordinator and one member, of a sample setup. -/
def sampleNetwork : Network .sample Counter :=
  ((Network.assemble sampleContext ⟨1000000⟩ .empty (0, ⟨5⟩) sampleSetup.2
    [(1, ⟨100⟩)]).toOption).get (by decide +kernel)

/-- The member joins. -/
def sampleJoining : List Network.Action :=
  [.tick 0 .heartbeat, .deliver 1 0, .deliver 0 1, .deliver 1 2, .deliver 0 3, .deliver 1 4]

/-- The coordinator accepts the key that it proposes, and it hears of that. -/
def sampleAccepting : List Network.Action := [.deliver 0 5, .deliver 1 7]

/-- The network when the member, having joined, has proposed a first key. -/
def sampleProposed : Recorded .sample Counter :=
  let w := Recorded.run sampleNetwork sampleJoining
  let proposed := w.network.members.map fun m => m.distribute w.network.context w.network.now 1 32
  { w with
    network.members := proposed.map (·.2)
    sent := w.sent ++ proposed.map fun x => (Message.keyUpdate x.1).encode }

theorem step_sampleJoining :
    (Recorded.run sampleNetwork sampleJoining).step (.tick 1 .keyUpdate) = sampleProposed := by
  obtain ⟨hone, hjoined, hlength⟩ :
      (Recorded.run sampleNetwork sampleJoining).network.members.length = 1 ∧
      (∀ m ∈ (Recorded.run sampleNetwork sampleJoining).network.members,
        m.phase = .joined ∧ m.session.pending.isEmpty ∧ m.session.current.version = 0) ∧
      (Recorded.run sampleNetwork sampleJoining).network.context.config.sessionKeyLength = 32 := by
    decide +kernel
  obtain ⟨m, hm⟩ := List.length_eq_one_iff.1 hone
  obtain ⟨hphase, hempty, hcurrent⟩ := hjoined m (by simp [hm])
  -- The highest version of a map is out of reach of evaluation, but here nothing is pending.
  have hversion : Member.nextVersion m.session.highestVersion = 1 := by
    rw [KeyBook.highestVersion_of_isEmpty hempty, hcurrent]
    decide
  simp [Recorded.step, Broadcast.step, Broadcast.act, Broadcast.accepts, Network.tick, Member.tick,
    Member.launchKeyUpdate, hm, hphase, hversion, hlength, sampleProposed, Network.frames,
    Network.sent, Except.map]

/-- Both nodes have adopted the one key that was accepted, so they agree upon it. -/
theorem session_agreement_one_member :
    let w := Recorded.run sampleNetwork (sampleJoining ++ .tick 1 .keyUpdate :: sampleAccepting)
    w.accepted.map Fingerprint.version = [1] ∧
      w.network.books.map (·.current.version) = [1, 1] ∧
      (∀ b ∈ w.network.books, 0 < b.current.version →
        ∃ f ∈ w.accepted, f.version = b.current.version ∧ f.digest = b.current.digest) ∧
      ∀ b ∈ w.network.books, ∀ b' ∈ w.network.books, b.current.version = b'.current.version →
        b.current.digest = b'.current.digest := by
  intro w
  have hn : Network.assemble sampleContext ⟨1000000⟩ .empty (0, ⟨5⟩) sampleSetup.2 [(1, ⟨100⟩)] =
      .ok sampleNetwork :=
    eq_ok_of_toOption (by decide +kernel)
  obtain ⟨-, hvouched, hsame⟩ :=
    session_agreement hn (sampleJoining ++ .tick 1 .keyUpdate :: sampleAccepting)
  have hw : w = sampleAccepting.foldl Recorded.step sampleProposed := by
    show List.foldl _ _ (_ ++ _ :: _) = _
    rw [List.foldl_append, List.foldl_cons, ← step_sampleJoining]
    rfl
  obtain ⟨hversions, hcurrent⟩ :
      (sampleAccepting.foldl Recorded.step sampleProposed).accepted.map Fingerprint.version = [1] ∧
      (sampleAccepting.foldl Recorded.step sampleProposed).network.books.map (·.current.version) =
        [1, 1] := by
    decide +kernel
  rw [← hw] at hversions hcurrent
  exact ⟨hversions, hcurrent, hvouched, hsame⟩

end GroupKey
