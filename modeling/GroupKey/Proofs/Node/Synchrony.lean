import GroupKey.Proofs.Node.Upkeep

/-!
# When a member is in step with the coordinator

A heartbeat tells a member how many members its group has. If they are more than it counted, it
notes the slots that it missed as gaps. This is the only check between its key and that of the
coordinator. It finds the joins that the member missed, but not those that only the member followed:
these raise the count of the member, not that of the heartbeat.

* `CaughtUp` — a member that has just handled the last heartbeat and sees no gap.
* `CaughtUp.key_eq_iff` — when it has the key of the coordinator.
* `caughtUp_key_ne` — a run in which it does not.
-/

namespace GroupKey

variable {S : Suite} {ρ : Type}

/-! ## What the last heartbeat tells -/

namespace Journal

theorem hears_of_deliver [Generator ρ] {w : Journal S ρ} {place index : Nat} {hb : Heartbeat S}
    (hindex : w.message? index = some (.heartbeat hb)) {m : Member S ρ}
    (hm : (w.step (.deliver (place + 1) index)).network.members[place]? = some m) :
    (w.step (.deliver (place + 1) index)).network.coordinator = w.network.coordinator ∧
      ∃ m₀, Member.Hears hb m₀ m := by
  obtain ⟨frame, hframe, hdecode⟩ := Option.bind_eq_some_iff.1 hindex
  cases hm₀ : w.network.members[place]? with
  | none =>
    have hstays : (w.step (.deliver (place + 1) index)).network = w.network := by
      simp only [Journal.step, Broadcast.step, Broadcast.act, Network.deliver, hframe, hm₀]
    rw [hstays, hm₀] at hm
    simp at hm
  | some m₀ =>
    rw [step_deliver_member hframe hm₀] at hm ⊢
    refine ⟨rfl, m₀, ?_⟩
    simp only [Member.receive, hdecode] at hm
    rw [List.getElem?_set_self', Option.map_eq_map, Option.map_eq_some_iff] at hm
    obtain ⟨_, -, rfl⟩ := hm
    exact Member.handleHeartbeat_hears w.network.now hb m₀

variable [S.AbelianSources] {w : Journal S ρ} {heard : Nat → Nat}

/-- **Without a gap a member counts as many members as the coordinator**, or more. -/
theorem Kept.card_le [S.FaithfulPoints] (h : w.Kept heard) {place : Nat} {m₀ m : Member S ρ}
    (hm : w.network.members[place]? = some m) {hb : Heartbeat S} (hears : Member.Hears hb m₀ m)
    (hgaps : m.gaps = ∅) (hphase : m.phase = .joined) {s : Membership S}
    (hs : m.engine.membership = some s) {g : ManagedGroup S}
    (hg : w.network.coordinator.groups[s.group]? = some g) (hmem : g.info ∈ hb.groups) :
    (w.ledger s.group).card ≤ (w.accounts place).card := by
  obtain ⟨secrets, hp⟩ := h.setup
  have hstands := h.stands place m hm
  have hbooks := h.books s.group g hg
  obtain ⟨t, ht, -, -, htally⟩ := hbooks.tally
  obtain ⟨known, hknown, hmissed⟩ :=
    hears.missed s.group (Member.joinedGroup?_eq_some.2 ⟨hphase, s, hs, rfl⟩)
  obtain ⟨hid, ⟨-, t', taken, ht', htally'⟩, -⟩ := hstands.known s.group known hknown
  obtain rfl : t = t' := by
    rw [hid, ht] at ht'
    exact Except.ok.inj ht'
  have hle : g.info.memberCount ≤ known.memberCount := by
    by_contra hlt
    have hlt := UInt32.not_le.1 hlt
    obtain ⟨slot, hslot⟩ := htally'.exists_gap (hp.isShaped ht).scale_lt htally hlt
    have hgap := hmissed g.info hmem hbooks.named hlt slot hslot
    rw [hgaps] at hgap
    simp at hgap
  calc (w.ledger s.group).card = g.info.memberCount.toNat := htally.count_range.symm
    _ ≤ known.memberCount.toNat := UInt32.le_iff_toNat_le.1 hle
    _ ≤ (w.accounts place).card := (hstands.key hphase s hs).2 known hknown

end Journal

/-! ## Members that see no gap -/

variable [Generator ρ]

/-- In a run in which no frame overtakes another, a member has just handled the last heartbeat of
the coordinator. It is in a group whose snapshot the heartbeat carries and which the coordinator
holds, no join was accepted since, and it sees no gap. -/
structure CaughtUp (n : Network S ρ) (actions : List Network.Action) (place index : Nat)
    (s : Membership S) (g : ManagedGroup S) : Prop where
  orderly : Network.Orderly (fun _ => 0) (actions ++ [.deliver (place + 1) index])
  heartbeat : ∃ hb, (Journal.run n actions).message? index = some (.heartbeat hb) ∧
    ∃ info ∈ hb.groups, info.id = s.group
  last : (Journal.run n actions).QuietSince index
  member : ∃ m, (Journal.run n (actions ++ [.deliver (place + 1) index])).network.members[place]? =
    some m ∧ m.phase = .joined ∧ m.gaps = ∅ ∧ m.engine.membership = some s
  held : (Journal.run n (actions ++ [.deliver (place + 1) index])).network.coordinator.groups[
    s.group]? = some g

/-- **When a member that sees no gap has the key of the coordinator.** Let the parameters come from
a successful setup, and let a network of new nodes run over a medium that loses frames but delivers
them in order. A member that has caught up without a gap has followed at least as many joins as the
coordinator has accepted for its group. Its key is that of the coordinator exactly when the joins
that only the member followed add the same to a key as those that only the coordinator accepted. So
the keys are the same if the member followed no join that the coordinator did not accept. -/
theorem CaughtUp.key_eq_iff [S.AbelianSources] [S.FaithfulPoints] {σ : Type} [Generator σ]
    {context : Context S} {level : UInt32} {maxGroupSize sizeStep : Nat} {r r' : σ}
    {secrets : SlotSecrets S} (hsetup : Parameters.setup level maxGroupSize sizeStep r =
      (.ok (context.parameters, secrets), r'))
    {now : Timestamp} {directory : Directory S} {coordinator : UInt32 × ρ}
    {members : List (UInt32 × ρ)} {n : Network S ρ}
    (hn : Network.assemble context now directory coordinator secrets members = .ok n)
    {actions : List Network.Action} {place index : Nat} {s : Membership S} {g : ManagedGroup S}
    (h : CaughtUp n actions place index s g) :
    let w := Journal.run n (actions ++ [.deliver (place + 1) index])
    let followed := w.accounts place
    let accepted := w.ledger s.group
    accepted.card ≤ followed.card ∧
      (s.key = g.info.key ↔ w.total (followed \ accepted) = w.total (accepted \ followed)) ∧
      (followed ⊆ accepted → s.key = g.info.key) := by
  intro w followed accepted
  obtain ⟨heard, hkept, horder⟩ := Journal.Kept.run (Journal.kept_start (Network.isNew_assemble hn)
    (Parameters.isSetup_of_setup hsetup)) h.orderly
  obtain ⟨hb, hindex, -⟩ := h.heartbeat
  obtain ⟨m, hm, hphase, hgaps, hs⟩ := h.member
  have hstep : w = (Journal.run n actions).step (.deliver (place + 1) index) :=
    Journal.run_concat n actions _
  have hm : w.network.members[place]? = some m := hm
  have hg : w.network.coordinator.groups[s.group]? = some g := h.held
  have hkept' : w.Kept _ := hstep ▸ hkept.step _ horder.1
  obtain ⟨hcoordinator, m₀, hears⟩ := Journal.hears_of_deliver hindex (hstep ▸ hm)
  have hmem : g.info ∈ hb.groups :=
    hkept.posted index hb hindex h.last s.group g (hcoordinator ▸ hstep ▸ hg)
  have hcard := hkept'.card_le hm hears hgaps hphase hs hg hmem
  have hkey : s.key = w.keyAfter s.group followed := ((hkept'.stands place m hm).key hphase s hs).1
  have hkey' : g.info.key = w.keyAfter s.group accepted := (hkept'.books s.group g hg).key
  refine ⟨hcard, ?_, ?_⟩
  · rw [hkey, hkey']
    exact Broadcast.keyAfter_eq_iff
  · intro hsub
    rw [hkey, hkey', Finset.eq_of_subset_of_card_le hsub hcard]

/-! ### Two runs -/

/-- Whether a member has caught up at the end of a run, with a given relation between its membership
and the group of the coordinator. -/
def Network.endsCaughtUp (n : Network S ρ) (actions : List Network.Action) (place index : Nat)
    (holds : Membership S → ManagedGroup S → Bool) : Bool :=
  let before := Journal.run n actions
  let w := before.step (.deliver (place + 1) index)
  decide (Network.Orderly (fun _ => 0) (actions ++ [.deliver (place + 1) index])) &&
    decide (before.QuietSince index) &&
    w.network.members[place]?.any fun m => decide (m.phase = .joined) && m.gaps.isEmpty &&
      m.engine.membership.any fun s =>
        (match before.message? index with
          | some (.heartbeat hb) => hb.groups.any fun info => decide (info.id = s.group)
          | _ => false) &&
        w.network.coordinator.groups[s.group]?.any (holds s)

theorem Network.exists_caughtUp {n : Network S ρ} {actions : List Network.Action}
    {place index : Nat} {holds : Membership S → ManagedGroup S → Bool}
    (h : n.endsCaughtUp actions place index holds = true) :
    ∃ s g, CaughtUp n actions place index s g ∧ holds s g = true := by
  simp only [Network.endsCaughtUp, ← Journal.run_concat, Bool.and_eq_true, decide_eq_true_eq,
    Option.any_eq_true, Std.ExtTreeSet.isEmpty_iff] at h
  obtain ⟨⟨horderly, hquiet⟩, m, hm, ⟨hphase, hgaps⟩, s, hs, hheartbeat, g, hg, hholds⟩ := h
  refine ⟨s, g, ⟨horderly, ?_, hquiet, ⟨m, hm, hphase, hgaps, hs⟩, hg⟩, hholds⟩
  split at hheartbeat
  · next hb hindex =>
    obtain ⟨info, hinfo, hid⟩ := List.any_eq_true.1 hheartbeat
    exact ⟨hb, hindex, info, hinfo, of_decide_eq_true hid⟩
  · simp at hheartbeat

/-- A coordinator and two members, of a sample setup. -/
def samplePair : Network .sample Counter :=
  ((Network.assemble sampleContext ⟨1000000⟩ .empty (0, ⟨5⟩) sampleSetup.2
    [(1, ⟨100⟩), (2, ⟨200⟩)]).toOption).get (by decide +kernel)

/-- The first member joins, and then follows the join of the second. -/
def sampleJoins : List Network.Action :=
  [.tick 0 .heartbeat, .deliver 1 0, .deliver 0 1, .deliver 1 2, .deliver 0 3, .deliver 1 4,
    .tick 0 .heartbeat, .deliver 2 5, .deliver 0 6, .deliver 2 7, .deliver 1 8]

/-- If the coordinator accepts the second join as well, the first member has its key. -/
theorem CaughtUp.key_eq_iff_two_joins :
    let actions := sampleJoins ++ [.deliver 0 8, .tick 0 .heartbeat]
    let w := Journal.run samplePair (actions ++ [.deliver 1 10])
    ∃ s g, CaughtUp samplePair actions 0 10 s g ∧ w.accounts 0 ⊆ w.ledger s.group ∧
      s.key = g.info.key := by
  intro actions w
  have hrun : samplePair.endsCaughtUp actions 0 10
      (fun s _ => decide (w.accounts 0 ⊆ w.ledger s.group)) = true := by
    decide +kernel
  obtain ⟨s, g, h, hsub⟩ := Network.exists_caughtUp hrun
  have hsub := of_decide_eq_true hsub
  have hn : Network.assemble sampleContext ⟨1000000⟩ .empty (0, ⟨5⟩) sampleSetup.2
      [(1, ⟨100⟩), (2, ⟨200⟩)] = .ok samplePair :=
    eq_ok_of_toOption (by decide +kernel)
  exact ⟨s, g, h, hsub, (h.key_eq_iff setup_sample hn).2.2 hsub⟩

/-- **A join that only a member hears leaves no gap.** The second join does not arrive at the
coordinator. So the next heartbeat counts fewer members than the first member does, which passes it
over, and keeps a key that is not that of the coordinator. -/
theorem caughtUp_key_ne : ∃ s g,
    CaughtUp samplePair (sampleJoins ++ [.tick 0 .heartbeat]) 0 9 s g ∧ s.key ≠ g.info.key := by
  have hrun : samplePair.endsCaughtUp (sampleJoins ++ [.tick 0 .heartbeat]) 0 9
      (fun s g => decide (s.key ≠ g.info.key)) = true := by
    decide +kernel
  obtain ⟨s, g, h, hne⟩ := Network.exists_caughtUp hrun
  exact ⟨s, g, h, of_decide_eq_true hne⟩

end GroupKey
