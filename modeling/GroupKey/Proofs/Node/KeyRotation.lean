import GroupKey.Proofs.Node.Admission
import GroupKey.Proofs.Node.Relay
import GroupKey.Proofs.Node.SessionKeys

/-!
# Accepted keys are ordered and spaced

A coordinator accepts a key in one of two ways: as the answer of the member that it asked, or as the
proposal of any member. Both compare the version and the time of issue with what was accepted last;
only a proposal must also keep its distance in time. Whatever arrives, and wherever the clock jumps,
the keys of a run are accepted in the order of their versions, and no proposal soon after another
key. The last one is what the coordinator announces.

* `acceptances` — the keys that a run accepted, in order.
* `Paced` — keys in order, none of them stale, and no proposal too soon.
* `Rotates`, `rotates_react` — what a step does about keys, by what it sends.
* `accepted_of_relayed` — a key that is relayed was accepted.
* `Tells` — the coordinator tells of the key accepted last; `Tells.step`, `Tells.run` keep this.
* `keys_in_order` — the keys of any run.
-/

namespace GroupKey

theorem Duration.micros_ofMillis (millis : Nat) : (ofMillis millis).micros = millis * 1000 :=
  Nat.mul_div_cancel _ (by decide)

/-- A span of milliseconds has passed since a time, and that is the later one. -/
theorem Timestamp.add_le_of_since {now last : Timestamp} {millis : Nat}
    (hpos : Duration.zero < Duration.ofMillis millis)
    (h : ¬ now.since last < Duration.ofMillis millis) :
    last.micros.toNat + (Duration.ofMillis millis).micros ≤ now.micros.toNat := by
  replace hpos : 0 < millis * 1000 * 1000 := hpos
  replace h : ¬ (now.micros.toNat - last.micros.toNat) * 1000 < millis * 1000 * 1000 := h
  rw [Duration.micros_ofMillis]
  omega

namespace Coordinator

variable {S : Suite} {ρ : Type} {ctx : Context S} {e : Stimulus S}
  {c c' : Coordinator S ρ} {ms : List (Message S)} {past : List (Emission S)}

/-! ## The keys of a run -/

/-- A key that was accepted. -/
structure Acceptance (S : Suite) where
  /-- The time at which it was accepted. -/
  now : Timestamp
  /-- Whether a member proposed it, and was not asked for it. -/
  proposed : Bool
  distribution : Distribution S

namespace Acceptance

/-- The version of the key. -/
def version (a : Acceptance S) : UInt32 := a.distribution.fingerprint.version

/-- The key was issued recently when it was accepted. -/
def IsTimely (ctx : Context S) (a : Acceptance S) : Prop :=
  a.now ≤ a.distribution.fingerprint.issued + ctx.config.freshnessWindow

/-- The second key, if it is a proposal, was accepted no sooner than the threshold after the
first. -/
def Spaced (ctx : Context S) (a b : Acceptance S) : Prop :=
  b.proposed = true →
    a.now.micros.toNat + ctx.config.keyUpdateThreshold.micros ≤ b.now.micros.toNat

end Acceptance

/-- The key that a message relays, which the coordinator has then accepted. -/
def Emission.acceptance? (x : Emission S) : Option (Acceptance S) :=
  x.message.distribution?.map (⟨x.cause.now, x.kind = .keyUpdate, ·⟩)

/-- The keys that were accepted, in order. -/
def acceptances (trace : List (Emission S)) : List (Acceptance S) :=
  trace.filterMap Emission.acceptance?

/-- The fingerprint of the last key, all zeros before there is one. -/
def lastAccepted (keys : List (Acceptance S)) : Fingerprint :=
  (keys.getLast?.map (·.distribution.fingerprint)).getD .zero

/-- Each announcement is of the key accepted last. -/
def AnnouncesLast (trace : List (Emission S)) : Prop :=
  ∀ before x after, trace = before ++ x :: after → ∀ f, x.message.announced? = some f →
    f = lastAccepted (acceptances before)

theorem acceptances_append (past trace : List (Emission S)) :
    acceptances (past ++ trace) = acceptances past ++ acceptances trace :=
  List.filterMap_append

theorem acceptances_of_quiet {trace : List (Emission S)}
    (h : ∀ x ∈ trace, x.message.distribution? = none) : acceptances trace = [] :=
  List.filterMap_eq_nil_iff.2 fun x hx => by rw [Emission.acceptance?, h x hx, Option.map_none]

theorem lastAccepted_snoc (keys : List (Acceptance S)) (a : Acceptance S) :
    lastAccepted (keys ++ [a]) = a.distribution.fingerprint := by
  simp [lastAccepted]

theorem AnnouncesLast.append (h : AnnouncesLast past) {trace : List (Emission S)}
    (hnew : ∀ before x after, trace = before ++ x :: after → ∀ f, x.message.announced? = some f →
      f = lastAccepted (acceptances (past ++ before))) : AnnouncesLast (past ++ trace) := by
  intro before x after heq f hf
  rcases List.append_eq_append_iff.1 heq with ⟨rest, rfl, hrest⟩ | ⟨rest, hpast, hrest⟩
  · exact hnew rest x after hrest f hf
  · cases rest with
    | nil =>
      rw [List.append_nil] at hpast
      have hfirst := hnew [] x after hrest.symm f hf
      rwa [List.append_nil, hpast] at hfirst
    | cons y rest =>
      obtain ⟨rfl, -⟩ := List.cons.inj hrest
      exact h before x rest hpast f hf

theorem AnnouncesLast.snoc (h : AnnouncesLast past) {x : Emission S}
    (hx : ∀ f, x.message.announced? = some f → f = lastAccepted (acceptances past)) :
    AnnouncesLast (past ++ [x]) := by
  refine h.append fun before y after heq f hf => ?_
  cases before with
  | nil =>
    obtain ⟨rfl, -⟩ := List.cons.inj heq
    rw [List.append_nil]
    exact hx f hf
  | cons z before => simp at heq

/-! ## Steps -/

/-- What a step from `c` to `c'` does about keys, by what it sends. -/
inductive Rotates (ctx : Context S) (e : Stimulus S) (c c' : Coordinator S ρ) :
    List (Message S) → Prop
  | keeps {ms : List (Message S)} (accepted : c'.accepted = c.accepted)
      (lastKeyUpdate : c'.lastKeyUpdate = c.lastKeyUpdate)
      (quiet : ∀ x ∈ ms, x.distribution? = none)
      (announced : ∀ x ∈ ms, ∀ f, x.announced? = some f → f = c.accepted) : Rotates ctx e c c' ms
  | answered (d : Distribution S) (fresh : IsFresh ctx e.now c d.fingerprint)
      (accepts : c' = accept ctx e.now d { c with dispatcher := none }) :
      Rotates ctx e c c' [.keyEncap d]
  | proposed (d : Distribution S) (fresh : IsFresh ctx e.now c d.fingerprint)
      (unlimited : ¬ IsRateLimited ctx e.now c) (accepts : c' = accept ctx e.now d c) :
      Rotates ctx e c c' [.keyUpdate d, .keyUpdateAck ⟨d.pid, d.fingerprint⟩]

theorem Rotates.silent (h : c'.accepted = c.accepted) (hlast : c'.lastKeyUpdate = c.lastKeyUpdate) :
    Rotates ctx e c c' [] :=
  .keeps h hlast (by simp) (by simp)

/-! ## Keys in order -/

/-- Keys in the order of their versions, none of them stale when it was accepted, and no proposal
too soon after the key before it. -/
structure Paced (ctx : Context S) (keys : List (Acceptance S)) : Prop where
  rising : keys.Pairwise (·.version < ·.version)
  timely : ∀ a ∈ keys, a.IsTimely ctx
  spaced : .zero < ctx.config.keyUpdateThreshold → keys.IsChain (Acceptance.Spaced ctx)

theorem paced_nil : Paced ctx [] := ⟨.nil, by simp, fun _ => .nil⟩

theorem Paced.version_le {keys : List (Acceptance S)} (h : Paced ctx keys) :
    ∀ a ∈ keys, a.version ≤ (lastAccepted keys).version := by
  rcases List.eq_nil_or_concat' keys with rfl | ⟨before, last, rfl⟩
  · simp
  · intro a ha
    rw [lastAccepted_snoc]
    rcases List.mem_append.1 ha with ha | ha
    · exact UInt32.le_of_lt
        ((List.pairwise_append.1 h.rising).2.2 a ha last (List.mem_singleton_self last))
    · rw [List.mem_singleton.1 ha]
      exact UInt32.le_rfl

theorem Paced.snoc {keys : List (Acceptance S)} {a : Acceptance S} (h : Paced ctx keys)
    (hnewer : (lastAccepted keys).version < a.version) (htimely : a.IsTimely ctx)
    (hspaced : .zero < ctx.config.keyUpdateThreshold →
      ∀ last ∈ keys.getLast?, last.Spaced ctx a) : Paced ctx (keys ++ [a]) := by
  refine ⟨List.pairwise_append.2 ⟨h.rising, List.pairwise_singleton _ _, ?_⟩, ?_, fun hpos => ?_⟩
  · intro b hb a' ha'
    rw [List.mem_singleton.1 ha']
    exact UInt32.lt_of_le_of_lt (h.version_le b hb) hnewer
  · intro b hb
    rcases List.mem_append.1 hb with hb | hb
    · exact h.timely b hb
    · rw [List.mem_singleton.1 hb]
      exact htimely
  · refine List.isChain_append.2 ⟨h.spaced hpos, .singleton _, fun last hlast b hb => ?_⟩
    obtain rfl := Option.some.inj hb
    exact hspaced hpos last hlast

/-- The coordinator tells of the key accepted last, and all that it has announced was the last one
when it did. -/
structure Tells (ctx : Context S) (past : List (Emission S)) (c : Coordinator S ρ) : Prop where
  accepted : c.accepted = lastAccepted (acceptances past)
  lastKeyUpdate : c.lastKeyUpdate = (acceptances past).getLast?.map (·.now)
  paced : Paced ctx (acceptances past)
  announced : AnnouncesLast past

theorem tells_new {pid : UInt32} {secrets : SlotSecrets S} {generator : ρ}
    (h : Coordinator.new ctx pid secrets generator = .ok c) : Tells ctx [] c := by
  obtain ⟨tier, -, rfl⟩ := eq_of_new h
  exact ⟨rfl, rfl, paced_nil, fun before x after heq => by simp at heq⟩

theorem Tells.accept {d : Distribution S} {trace : List (Emission S)} {proposed : Bool}
    (h : Tells ctx past c) (fresh : IsFresh ctx e.now c d.fingerprint)
    (unlimited : proposed = true → ¬ IsRateLimited ctx e.now c)
    (htrace : acceptances trace = [⟨e.now, proposed, d⟩])
    (hannounced : AnnouncesLast (past ++ trace)) (dispatcher : Option UInt32) :
    Tells ctx (past ++ trace) (Coordinator.accept ctx e.now d { c with dispatcher }) := by
  refine ⟨?_, ?_, ?_, hannounced⟩ <;> rw [acceptances_append, htrace]
  · rw [lastAccepted_snoc]
    rfl
  · rw [List.getLast?_concat, Option.map_some]
    rfl
  · refine h.paced.snoc ?_ fresh.2 fun hpos last hlast hproposed => ?_
    · rw [← h.accepted]
      exact fresh.1
    · refine Timestamp.add_le_of_since hpos fun hsoon => unlimited hproposed ⟨last.now, ?_, hsoon⟩
      rw [h.lastKeyUpdate, hlast]
      rfl

theorem Tells.step (h : Tells ctx past c) (hms : Rotates ctx e c c' ms) :
    Tells ctx (past ++ ms.map (⟨e, ·⟩)) c' := by
  cases hms with
  | keeps accepted lastKeyUpdate quiet announced =>
    have hquiet : ∀ x ∈ ms.map (Emission.mk e), x.message.distribution? = none := by
      intro x hx
      obtain ⟨m, hm, rfl⟩ := List.mem_map.1 hx
      exact quiet m hm
    have hsame : acceptances (past ++ ms.map (Emission.mk e)) = acceptances past := by
      rw [acceptances_append, acceptances_of_quiet hquiet, List.append_nil]
    refine ⟨?_, ?_, ?_, h.announced.append fun before x after heq f hf => ?_⟩
    · rw [hsame, accepted, h.accepted]
    · rw [hsame, lastKeyUpdate, h.lastKeyUpdate]
    · rw [hsame]
      exact h.paced
    · have hbefore : acceptances before = [] :=
        acceptances_of_quiet fun y hy => hquiet y (heq ▸ List.mem_append_left _ hy)
      have hx : x ∈ ms.map (Emission.mk e) := heq ▸ by simp
      obtain ⟨m, hm, rfl⟩ := List.mem_map.1 hx
      rw [acceptances_append, hbefore, List.append_nil, ← h.accepted]
      exact announced m hm f hf
  | answered d fresh accepts =>
    have hasked : acceptances [Emission.mk e (.keyEncap d)] = [⟨e.now, false, d⟩] := rfl
    rw [accepts]
    exact h.accept fresh (by simp) hasked (h.announced.snoc (by simp [Message.announced?])) none
  | proposed d fresh unlimited accepts =>
    have hproposed : acceptances [Emission.mk e (.keyUpdate d),
      ⟨e, .keyUpdateAck ⟨d.pid, d.fingerprint⟩⟩] = [⟨e.now, true, d⟩] := rfl
    rw [accepts]
    refine h.accept fresh (fun _ => unlimited) hproposed ?_ c.dispatcher
    -- The key itself announces nothing, and its acknowledgement comes after it.
    have hkey : AnnouncesLast (past ++ [⟨e, .keyUpdate d⟩]) :=
      h.announced.snoc (by simp [Message.announced?])
    have hlast : lastAccepted (acceptances (past ++ [⟨e, .keyUpdate d⟩])) = d.fingerprint := by
      rw [acceptances_append]
      exact lastAccepted_snoc (acceptances past) ⟨e.now, true, d⟩
    have hack : AnnouncesLast (past ++ [⟨e, .keyUpdate d⟩] ++
        [⟨e, .keyUpdateAck ⟨d.pid, d.fingerprint⟩⟩]) :=
      hkey.snoc fun f hf => (Option.some.inj hf).symm.trans hlast.symm
    rwa [List.append_assoc] at hack

/-! ## Runs -/

variable [Generator ρ]

theorem Reacts.rotates {r : Except NodeError (List (Message S)) × Coordinator S ρ}
    (h : Reacts ctx e c r) : Rotates ctx e c r.2 (emitted r.1) := by
  cases h with
  | unread => exact .silent rfl rfl
  | handled arrived h =>
    cases h with
    | noted | dropped | early | lost | refuted | unseated => exact .silent rfl rfl
    | placed | seated =>
      exact .keeps rfl rfl (by simp [emitted, Message.distribution?])
        (by simp [emitted, Message.announced?])
    | answered asked fresh => exact .answered _ fresh rfl
    | proposed fresh unlimited => exact .proposed _ fresh unlimited rfl
  | ticked fired h =>
    cases h with
    | stalled | nobody | foreign => exact .silent rfl rfl
    | continued | founded =>
      refine .keeps rfl rfl (by simp [emitted, Message.distribution?]) fun x hx f hf => ?_
      obtain rfl := List.mem_singleton.1 hx
      exact (Option.some.inj hf).symm
    | asked =>
      exact .keeps rfl rfl (by simp [emitted, Message.distribution?])
        (by simp [emitted, Message.announced?])

/-- **What a step does about keys.** -/
theorem rotates_react (ctx : Context S) (e : Stimulus S) (c : Coordinator S ρ) :
    Rotates ctx e c (c.react ctx e).2 (emitted (c.react ctx e).1) :=
  (reacts_react ctx e c).rotates

/-- **A key that is relayed was accepted**, as one that is new and recent. -/
theorem accepted_of_relayed {d : Distribution S} {x : Message S}
    (hx : x ∈ emitted (c.react ctx e).1) (hd : x.distribution? = some d) :
    IsFresh ctx e.now c d.fingerprint ∧
      ∃ dispatcher, (c.react ctx e).2 = accept ctx e.now d { c with dispatcher } := by
  have hrotates := rotates_react ctx e c
  obtain ⟨ms, hms⟩ : ∃ ms, emitted (c.react ctx e).1 = ms := ⟨_, rfl⟩
  rw [hms] at hx hrotates
  cases hrotates with
  | keeps accepted lastKeyUpdate quiet announced =>
    rw [quiet x hx] at hd
    cases hd
  | answered d' fresh accepts =>
    rw [List.mem_singleton.1 hx] at hd
    obtain rfl : d' = d := Option.some.inj hd
    exact ⟨fresh, none, accepts⟩
  | proposed d' fresh unlimited accepts =>
    -- The acknowledgement relays nothing.
    obtain rfl : d' = d := by
      rcases List.mem_cons.1 hx with rfl | hx
      · exact Option.some.inj hd
      · rw [List.mem_singleton.1 hx] at hd
        cases hd
    exact ⟨fresh, c.dispatcher, accepts⟩

theorem Tells.run (h : Tells ctx past c) (events : List (Stimulus S)) :
    Tells ctx (past ++ emissions ctx c events) (c.run ctx events) :=
  emissions_induction (fun c e _ h => h.step (rotates_react ctx e c)) h events

/-- **The keys of any run are ordered and spaced.** Let a new coordinator take any steps, with any
frames, timers and times, and any configuration. The keys that it accepts are of ever higher
versions. Each was accepted while its time of issue and the freshness window, added up to the last
time that there is, were not over. If there is a threshold, a key that a member proposed was
accepted no sooner than that after the key before it, whichever way this one came. The key accepted
last is the one that the coordinator has, and every heartbeat and every acknowledgement announced
the one that was last when it was sent. -/
theorem keys_in_order {pid : UInt32} {secrets : SlotSecrets S} {generator : ρ}
    (hnew : Coordinator.new ctx pid secrets generator = .ok c) (events : List (Stimulus S)) :
    let trace := emissions ctx c events
    let keys := acceptances trace
    keys.Pairwise (·.version < ·.version) ∧
    (∀ a ∈ keys, a.IsTimely ctx) ∧
    (.zero < ctx.config.keyUpdateThreshold → keys.IsChain (Acceptance.Spaced ctx)) ∧
    (c.run ctx events).accepted = lastAccepted keys ∧
    ∀ before x after, trace = before ++ x :: after → ∀ f, x.message.announced? = some f →
      f = lastAccepted (acceptances before) := by
  intro trace keys
  have htells : Tells ctx trace (c.run ctx events) := (tells_new hnew).run events
  exact ⟨htells.paced.rising, htells.paced.timely, htells.paced.spaced, htells.accepted,
    htells.announced⟩

/-- Member 1 proposes a key for no group. -/
def sampleProposal (version : UInt32) (now : Timestamp) : Stimulus .sample :=
  ⟨.empty, now, .frame (Message.encode (S := .sample)
    (.keyUpdate ⟨1, ⟨version, now, .zero⟩, [], ⟨0, []⟩⟩))⟩

/-- The second key is proposed too soon, and again when two seconds have passed. -/
def sampleRotation : List (Stimulus .sample) :=
  [sampleProposal 1 ⟨1000⟩, sampleProposal 2 ⟨2000999⟩, sampleProposal 2 ⟨2001000⟩]

/-- Two of the three proposals are accepted. -/
theorem keys_in_order_two :
    ∃ a b, acceptances (emissions sampleContext sampleNew sampleRotation) = [a, b] ∧
      a.version < b.version ∧ a.now.micros.toNat + 2000000 ≤ b.now.micros.toNat ∧
      (sampleNew.run sampleContext sampleRotation).accepted = b.distribution.fingerprint := by
  have hnew : Coordinator.new sampleContext 0 sampleSetup.2 (Counter.mk 5) = .ok sampleNew :=
    eq_ok_of_toOption (by decide +kernel)
  have hrun : (acceptances (emissions sampleContext sampleNew sampleRotation)).map (·.proposed) =
      [true, true] := by
    decide +kernel
  obtain ⟨a, keys, hkeys, -, hrest⟩ := List.map_eq_cons_iff.1 hrun
  obtain ⟨b, keys, rfl, hproposed, hrest⟩ := List.map_eq_cons_iff.1 hrest
  obtain rfl := List.map_eq_nil_iff.1 hrest
  obtain ⟨hrising, -, hspaced, haccepted, -⟩ := keys_in_order hnew sampleRotation
  rw [hkeys] at hrising hspaced haccepted
  have hspaced := (List.isChain_cons_cons.1 (hspaced (by decide))).1 hproposed
  exact ⟨a, b, hkeys, List.rel_of_pairwise_cons hrising (List.mem_singleton_self b), hspaced,
    haccepted⟩

end Coordinator

end GroupKey
