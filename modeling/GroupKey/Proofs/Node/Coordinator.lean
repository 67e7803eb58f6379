import GroupKey.Proofs.Maps
import GroupKey.Proofs.Node.Reaction

/-!
# What a step of the coordinator does to its groups

The coordinator changes its groups on two occasions only: a heartbeat drops those that have expired
and may found one, and an accepted join seats a member in one. This file says so once, in a form
from which invariants of the groups follow by a look at these two.

* `eq_of_new` — how a coordinator starts.
* `mem_snapshots`, `live` — the groups that a coordinator tells of, and those that have not expired.
* `Quiet` — a step that leaves the groups alone and says nothing about them, but may hand out a
  slot.
* `Regroups`, `regroups_react` — every step is quiet, a heartbeat, or lets a join in.
-/

namespace GroupKey

variable {S : Suite} {ρ : Type}

/-- Whether a message tells of the state of a group. -/
def Message.ConcernsGroups : Message S → Prop
  | .heartbeat _ | .join _ | .joinAck _ => True
  | .heartbeatAck _ | .notifyPosition _ | .keyEncapNotify _ | .keyEncap _ | .keyUpdate _
  | .keyUpdateAck _ => False

namespace Coordinator

/-! ## The groups held -/

/-- A new coordinator has heard of nothing, and makes groups of a tier for the configured size. -/
theorem eq_of_new {ctx : Context S} {pid : UInt32} {secrets : SlotSecrets S} {generator : ρ}
    {c : Coordinator S ρ} (h : Coordinator.new ctx pid secrets generator = .ok c) :
    ∃ tier, ctx.parameters.tierForSize? ctx.config.groupSize.toNat = some tier ∧
      c = { pid, tier, phase := .idle, groups := ∅, current := none, nextGroupSeq := 0,
            nextHeartbeatSeq := 0, lastHeartbeatSeq := none, assignment := none,
            assignedThisRound := false, liveness := .empty, dispatcher := none, accepted := .zero,
            lastKeyUpdate := none, session := .empty, secrets, generator } := by
  unfold Coordinator.new at h
  simp only at h
  split at h
  · simp at h
  · next tier htier =>
    split at htier
    · exact ⟨tier, htier, (Except.ok.inj h).symm⟩
    · simp at htier

theorem mem_snapshots {c : Coordinator S ρ} {info : Snapshot S} :
    info ∈ c.snapshots ↔
      ∃ (id : GroupId) (g : ManagedGroup S), c.groups[id]? = some g ∧ g.info = info := by
  simp only [snapshots, List.mem_map, mem_values]
  constructor
  · rintro ⟨g, ⟨id, hg⟩, rfl⟩
    exact ⟨id, g, hg, rfl⟩
  · rintro ⟨id, g, hg, rfl⟩
    exact ⟨g, ⟨id, hg⟩, rfl⟩

/-- The groups that have not expired. -/
def live (now : Timestamp) (c : Coordinator S ρ) : Std.ExtTreeMap GroupId (ManagedGroup S) :=
  c.groups.filter fun _ g => !g.info.isExpired now

theorem of_getElem?_live {now : Timestamp} {c : Coordinator S ρ} {id : GroupId}
    {g : ManagedGroup S} (h : (c.live now)[id]? = some g) : c.groups[id]? = some g := by
  rw [live, Std.ExtTreeMap.getElem?_filter', Option.filter_eq_some_iff] at h
  exact h.1

theorem isExpired_of_live {now : Timestamp} {c : Coordinator S ρ} {id : GroupId}
    {g : ManagedGroup S} (h : (c.live now)[id]? = some g) : g.info.isExpired now = false := by
  rw [live, Std.ExtTreeMap.getElem?_filter', Option.filter_eq_some_iff] at h
  simpa using h.2

/-! ## Quiet steps -/

/-- The groups, the one that is being filled and the numbers given to groups are the same. -/
structure SameGroups (c c' : Coordinator S ρ) : Prop where
  groups : c'.groups = c.groups
  current : c'.current = c.current
  nextGroupSeq : c'.nextGroupSeq = c.nextGroupSeq

/-- The assignment is the first free slot of the group that is being filled. -/
def Offers (c : Coordinator S ρ) (a : Assignment) : Prop :=
  ∃ g, c.currentGroup? = some g ∧ a.group = g.info.id ∧ g.freeSlots.head? = some a.slot

/-- The outcome of a step that leaves the groups alone and does not tell of them. -/
structure Quiet (c : Coordinator S ρ)
    (r : Except NodeError (List (Message S)) × Coordinator S ρ) : Prop where
  same : SameGroups c r.2
  offered : ∀ a, r.2.assignment = some a → c.assignment = some a ∨ c.Offers a
  silent : ∀ ms, r.1 = .ok ms → ∀ m ∈ ms, ¬m.ConcernsGroups

theorem Quiet.ok {c c' : Coordinator S ρ} {ms : List (Message S)} (hsame : SameGroups c c')
    (hassigned : c'.assignment = c.assignment) (hsilent : ∀ m ∈ ms, ¬m.ConcernsGroups) :
    Quiet c (.ok ms, c') :=
  ⟨hsame, fun _ h => Or.inl (hassigned ▸ h), fun _ h => Except.ok.inj h ▸ hsilent⟩

theorem Quiet.nil {c c' : Coordinator S ρ} (hsame : SameGroups c c')
    (hassigned : c'.assignment = c.assignment) : Quiet c (.ok [], c') :=
  Quiet.ok hsame hassigned fun _ h => absurd h List.not_mem_nil

theorem offers_of_slotFor? {now : Timestamp} {seq : UInt32} {c : Coordinator S ρ} {group : GroupId}
    {slot : UInt32} (h : c.slotFor? now seq = some (group, slot)) (pid : UInt32) :
    c.Offers ⟨group, slot, pid⟩ := by
  obtain ⟨-, -, -, g, hg, -, rfl, hslot⟩ := slotFor?_eq_some.1 h
  exact ⟨g, hg, rfl, hslot⟩

/-! ## Steps -/

variable [Generator ρ]

/-- What a step does to the groups. -/
inductive Regroups (ctx : Context S) (e : Stimulus S) (c : Coordinator S ρ) :
    Except NodeError (List (Message S)) × Coordinator S ρ → Prop
  | quiet {r : Except NodeError (List (Message S)) × Coordinator S ρ} (quiet : Quiet c r) :
      Regroups ctx e c r
  | heartbeat {r : Except NodeError (List (Message S)) × Coordinator S ρ}
      (fired : e.input = .timer .heartbeat) (ticks : Ticks ctx e.now c .heartbeat r) :
      Regroups ctx e c r
  /-- A join is let in, but its group fails to seat the member. -/
  | unseated {join : Join S} {g g' : ManagedGroup S} {err : NodeError}
      (arrived : e.Carries ctx (.join join)) (admits : Admits ctx e.directory join c g)
      (seat : g.seat ctx.parameters e.directory join.proof = (.error err, g')) :
      Regroups ctx e c (.error err, (c.draw ctx e.directory join).regroup join g')
  /-- A join is let in, and the member takes its slot. -/
  | seated {join : Join S} {g g' : ManagedGroup S} {share : S.G1}
      (arrived : e.Carries ctx (.join join)) (admits : Admits ctx e.directory join c g)
      (seat : g.seat ctx.parameters e.directory join.proof = (.ok share, g')) :
      Regroups ctx e c
        (.ok [.joinAck ⟨join.proof.group, join.proof.slot, join.proof.keyId, share, g'.info.key⟩],
          (c.draw ctx e.directory join).welcome e.now join g')

variable {ctx : Context S} {e : Stimulus S} {c : Coordinator S ρ}
  {r : Except NodeError (List (Message S)) × Coordinator S ρ}

theorem Reacts.regroups (h : Reacts ctx e c r) : Regroups ctx e c r := by
  cases h with
  | unread => exact .quiet (.nil ⟨rfl, rfl, rfl⟩ rfl)
  | handled arrived h =>
    cases h with
    | noted | dropped | early | refuted => exact .quiet (.nil ⟨rfl, rfl, rfl⟩ rfl)
    | lost => exact .quiet ⟨⟨rfl, rfl, rfl⟩, fun a ha => .inl ha, by simp⟩
    | @placed ack group slot unset free =>
      refine .quiet ⟨⟨rfl, rfl, rfl⟩, fun a ha => .inr ?_, by simp [Message.ConcernsGroups]⟩
      obtain rfl := Option.some.inj ha
      exact offers_of_slotFor? free ack.pid
    | unseated admits seat => exact .unseated arrived admits seat
    | seated admits seat => exact .seated arrived admits seat
    | answered | proposed =>
      exact .quiet (.ok ⟨rfl, rfl, rfl⟩ rfl (by simp [Message.ConcernsGroups]))
  | @ticked timer r fired h =>
    cases timer with
    | heartbeat => exact .heartbeat fired h
    | keyEncapNotify =>
      cases h with
      | nobody => exact .quiet (.nil ⟨rfl, rfl, rfl⟩ rfl)
      | asked => exact .quiet (.ok ⟨rfl, rfl, rfl⟩ rfl (by simp [Message.ConcernsGroups]))
    | keyUpdate =>
      cases h
      exact .quiet (.nil ⟨rfl, rfl, rfl⟩ rfl)

/-- **Every step is quiet, a heartbeat, or lets a join in.** -/
theorem regroups_react (ctx : Context S) (e : Stimulus S) (c : Coordinator S ρ) :
    Regroups ctx e c (c.react ctx e) :=
  (reacts_react ctx e c).regroups

end Coordinator

end GroupKey
