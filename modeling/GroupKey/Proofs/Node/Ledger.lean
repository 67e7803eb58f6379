import GroupKey.Agreement.Engine
import GroupKey.Proofs.Group.Balance
import GroupKey.Proofs.Node.Coordinator
import GroupKey.Proofs.Suite.Exponents
import Mathlib.Logic.Function.Basic

/-!
# The joins behind a coordinator's groups

A coordinator does not remember the joins that it accepted. An observer of a run can: the
coordinator acknowledges every join it accepts and numbers every group it founds. The list of joins
accepted since a group was founded is the group's ledger. It determines the whole group, and only
as a set.

* `Watched` — a coordinator with the ledgers that an observer keeps.
* `Accounted` — every group held is balanced with the joins of its ledger.
* `accounted_new`, `Accounted.step`, `Accounted.run` — this holds at the start, is kept by every
  step, and so holds in every run.
* `groups_closed_form` — the key material of every group in every run, and its independence of the
  order of the joins.
-/

namespace GroupKey.Coordinator

variable {S : Suite} {ρ σ : Type}

/-- The joins accepted for each group since it was founded. -/
abbrev Ledger (S : Suite) : Type := GroupId → List (Contribution S)

/-- A coordinator under observation. -/
structure Watched (S : Suite) (ρ : Type) where
  coordinator : Coordinator S ρ
  ledger : Ledger S

/-- The join that an answer acknowledges, with the group it is for. -/
def acknowledged? (ctx : Context S) (e : Stimulus S)
    (answer : Except NodeError (List (Message S))) : Option (GroupId × Contribution S) :=
  match e.input, answer with
  | .frame bytes, .ok [.joinAck _] =>
    match ctx.decode? bytes with
    | some (.join join) =>
      (e.directory.get? join.proof.keyId).map fun key => (join.proof.group, ⟨join.proof, key⟩)
    | _ => none
  | _, _ => none

/-- The group that a step founded: the one being filled after a number was given out. -/
def founded? (c c' : Coordinator S ρ) : Option GroupId :=
  if c'.nextGroupSeq = c.nextGroupSeq then none else c'.current

namespace Watched

/-- A coordinator of which nothing was seen yet. -/
def start (c : Coordinator S ρ) : Watched S ρ := ⟨c, fun _ => []⟩

/-- **Every group held is what its ledger says.** -/
def Accounted [S.AbelianSources] (ctx : Context S) (w : Watched S ρ) : Prop :=
  ∀ (id : GroupId) (g : ManagedGroup S), w.coordinator.groups[id]? = some g →
    ∃ t, ctx.parameters.tier id.tier = .ok t ∧ g.info.id = id ∧ g.info.tier = id.tier ∧
      g.info.expiry = id.expiry ∧ g.Balanced t (w.ledger id)

variable {ctx : Context S}

/-! ## What an observer notes -/

theorem founded?_of_same {c c' : Coordinator S ρ} (h : c'.nextGroupSeq = c.nextGroupSeq) :
    founded? c c' = none := by
  rw [founded?, if_pos h]

theorem founded?_of_succ {c c' : Coordinator S ρ} (h : c'.nextGroupSeq = c.nextGroupSeq + 1) :
    founded? c c' = c'.current := by
  have hne : c.nextGroupSeq + 1 ≠ c.nextGroupSeq := by
    intro h
    have := congrArg UInt16.toNat h
    rw [UInt16.toNat_add] at this
    have := c.nextGroupSeq.toNat_lt
    simp at *
  rw [founded?, h, if_neg hne]

@[simp]
theorem founded?_rest (c : Coordinator S ρ) (now : Timestamp) : founded? c (c.rest now) = none :=
  founded?_of_same rfl

@[simp]
theorem founded?_afterHeartbeat (c c' : Coordinator S ρ) :
    founded? c c'.afterHeartbeat = founded? c c' := rfl

@[simp]
theorem founded?_withGroup (c : Coordinator S ρ) (now : Timestamp) (g : ManagedGroup S) :
    founded? c ((c.rest now).withGroup g) = some g.info.id :=
  founded?_of_succ rfl

theorem acknowledged?_eq_none {e : Stimulus S} {answer : Except NodeError (List (Message S))}
    (h : ∀ ack, answer ≠ .ok [.joinAck ack]) : acknowledged? ctx e answer = none := by
  unfold acknowledged?
  split
  · next ack _ => exact absurd rfl (h ack)
  · rfl

theorem acknowledged?_of_quiet {e : Stimulus S} {c : Coordinator S ρ}
    {r : Except NodeError (List (Message S)) × Coordinator S ρ} (h : Quiet c r) :
    acknowledged? ctx e r.1 = none :=
  acknowledged?_eq_none fun ack hr =>
    h.silent _ hr (.joinAck ack) (List.mem_singleton_self _) trivial

theorem acknowledged?_error (e : Stimulus S) (err : NodeError) :
    acknowledged? ctx e (.error err) = none :=
  acknowledged?_eq_none (by simp)

theorem acknowledged?_heartbeat (e : Stimulus S) (hb : Heartbeat S) :
    acknowledged? ctx e (.ok [.heartbeat hb]) = none :=
  acknowledged?_eq_none (by simp)

/-! ## Accounts -/

section Accounts

variable [S.AbelianSources] {secrets : SlotSecrets S}

theorem accounted_new {pid : UInt32} {generator : ρ} {c : Coordinator S ρ}
    (h : Coordinator.new ctx pid secrets generator = .ok c) : (start c).Accounted ctx := by
  obtain ⟨tier, -, rfl⟩ := eq_of_new h
  intro id g hg
  simp [start] at hg

theorem accounted_of_live {w : Watched S ρ} (h : w.Accounted ctx) {now : Timestamp}
    {c : Coordinator S ρ} (hc : c.groups = w.coordinator.live now) :
    Accounted ctx ⟨c, w.ledger⟩ := by
  intro id g hg
  rw [hc] at hg
  exact h id g (of_getElem?_live hg)

/-- A group that is founded is that of the pseudo members, and its ledger is empty. -/
theorem accounted_bootstrap (hp : ctx.parameters.IsSetup secrets) {seq tier : UInt16}
    {expiry : Timestamp} {g : ManagedGroup S}
    (h : ManagedGroup.bootstrap ctx.parameters seq tier expiry = .ok g) :
    ∃ t, ctx.parameters.tier g.info.id.tier = .ok t ∧ g.info.tier = g.info.id.tier ∧
      g.info.expiry = g.info.id.expiry ∧ g.Balanced t [] := by
  cases ht : ctx.parameters.tier tier with
  | error err => simp [ManagedGroup.bootstrap, ht] at h
  | ok t =>
    obtain ⟨g', hboot, hid, htier, hexpiry, hbalanced⟩ :=
      ManagedGroup.balanced_bootstrap seq expiry ht (hp.isShaped ht)
    obtain rfl : g = g' := Except.ok.inj (h.symm.trans hboot)
    refine ⟨t, ?_, ?_, ?_, hbalanced⟩
    · rw [hid]
      exact ht
    · rw [htier, hid]
      rfl
    · rw [hexpiry, hid]
      rfl

end Accounts

/-! ## Steps -/

variable [Generator ρ]

/-- A step under observation. -/
def step (ctx : Context S) (w : Watched S ρ) (e : Stimulus S) : Watched S ρ :=
  let (answer, c) := w.coordinator.react ctx e
  let ledger := match founded? w.coordinator c with
    | some group => Function.update w.ledger group []
    | none => w.ledger
  match acknowledged? ctx e answer with
  | some (group, join) => ⟨c, Function.update ledger group (ledger group ++ [join])⟩
  | none => ⟨c, ledger⟩

/-- A run under observation. -/
def run (ctx : Context S) (w : Watched S ρ) (events : List (Stimulus S)) : Watched S ρ :=
  events.foldl (step ctx) w

@[simp]
theorem founded?_regroup (c : Coordinator S ρ) (directory : Directory S) (join : Join S)
    (g : ManagedGroup S) : founded? c ((c.draw ctx directory join).regroup join g) = none :=
  founded?_of_same rfl

@[simp]
theorem founded?_welcome (c : Coordinator S ρ) (directory : Directory S) (now : Timestamp)
    (join : Join S) (g : ManagedGroup S) :
    founded? c ((c.draw ctx directory join).welcome now join g) = none :=
  founded?_of_same rfl

theorem step_of_quiet {w : Watched S ρ} {e : Stimulus S}
    {r : Except NodeError (List (Message S)) × Coordinator S ρ}
    (hr : w.coordinator.react ctx e = r) (h : Quiet w.coordinator r) :
    w.step ctx e = ⟨r.2, w.ledger⟩ := by
  simp only [step, hr, acknowledged?_of_quiet h, founded?_of_same h.same.nextGroupSeq]

section Steps

variable [S.AbelianSources] {secrets : SlotSecrets S}

theorem Accounted.heartbeat (hp : ctx.parameters.IsSetup secrets) {w : Watched S ρ}
    (h : w.Accounted ctx) {e : Stimulus S}
    {r : Except NodeError (List (Message S)) × Coordinator S ρ}
    (hr : w.coordinator.react ctx e = r) (hticks : Ticks ctx e.now w.coordinator .heartbeat r) :
    (w.step ctx e).Accounted ctx := by
  cases hticks with
  | stalled =>
    simp only [Watched.step, hr, acknowledged?_error, founded?_rest]
    exact accounted_of_live h rfl
  | continued =>
    simp only [Watched.step, hr, acknowledged?_heartbeat, founded?_afterHeartbeat, founded?_rest]
    exact accounted_of_live h rfl
  | @founded g filled founds =>
    simp only [Watched.step, hr, acknowledged?_heartbeat, founded?_afterHeartbeat,
      founded?_withGroup]
    intro id g' hg'
    rcases getElem?_insert_cases hg' with ⟨rfl, rfl⟩ | ⟨hid, hg'⟩
    · obtain ⟨t, ht, htier, hexpiry, hbalanced⟩ := accounted_bootstrap hp founds
      refine ⟨t, ht, rfl, htier, hexpiry, ?_⟩
      simp only [Function.update_self]
      exact hbalanced
    · simp only [Function.update_of_ne (Ne.symm hid)]
      exact h id g' (of_getElem?_live hg')

theorem Accounted.join (hp : ctx.parameters.IsSetup secrets) {w : Watched S ρ}
    (h : w.Accounted ctx) {directory : Directory S} {join : Join S} {g : ManagedGroup S}
    (hg : Admits ctx directory join w.coordinator g) :
    ∃ key share g', directory.get? join.proof.keyId = some key ∧
      g.seat ctx.parameters directory join.proof = (.ok share, g') ∧
      ∀ c : Coordinator S ρ, c.groups = w.coordinator.groups.insert join.proof.group g' →
        Accounted ctx ⟨c, Function.update w.ledger join.proof.group
          (w.ledger join.proof.group ++ [⟨join.proof, key⟩])⟩ := by
  obtain ⟨t, ht, hid, htier, hexpiry, hbalanced⟩ := h _ g hg.held
  have ht' : ctx.parameters.tier join.proof.tier = .ok t := by
    rw [← hg.tier, htier, ht]
  obtain ⟨key, hfits, hkey⟩ := JoinProof.fits_of_tier ht' hg.valid
  obtain ⟨share, g', hseat, hid', htier', hexpiry', hbalanced'⟩ :=
    hbalanced.seat (hp.isShaped ht) ht' hfits hkey (hbalanced.slot_notMem hfits.slot_lt hg.free)
  refine ⟨key, share, g', hkey, hseat, fun c hgroups id g'' hg'' => ?_⟩
  rw [hgroups] at hg''
  rcases getElem?_insert_cases hg'' with ⟨rfl, rfl⟩ | ⟨hne, hg''⟩
  · refine ⟨t, ht, hid'.trans hid, htier'.trans htier, hexpiry'.trans hexpiry, ?_⟩
    simp only [Function.update_self]
    exact hbalanced'
  · simp only [Function.update_of_ne (Ne.symm hne)]
    exact h id g'' hg''

/-- **Every step keeps the accounts.** -/
theorem Accounted.step (hp : ctx.parameters.IsSetup secrets) {w : Watched S ρ}
    (h : w.Accounted ctx) (e : Stimulus S) : (w.step ctx e).Accounted ctx := by
  obtain ⟨r, hr⟩ : ∃ r, w.coordinator.react ctx e = r := ⟨_, rfl⟩
  have hregroups := regroups_react ctx e w.coordinator
  rw [hr] at hregroups
  cases hregroups with
  | quiet hquiet =>
    rw [step_of_quiet hr hquiet]
    intro id g hg
    rw [hquiet.same.groups] at hg
    exact h id g hg
  | heartbeat fired ticks => exact h.heartbeat hp hr ticks
  | unseated arrived admits seat =>
    -- The joiner of a checked proof is always seated.
    obtain ⟨key, share, g', -, hseat, -⟩ := h.join hp admits
    simp [hseat] at seat
  | @seated join g g' share arrived admits seat =>
    obtain ⟨frame, hinput, hread⟩ := arrived
    obtain ⟨key, share', g'', hkey, hseat, haccounted⟩ := h.join hp admits
    obtain ⟨-, rfl⟩ := Prod.mk.inj (seat.symm.trans hseat)
    simp only [Watched.step, hr, founded?_welcome, acknowledged?, hinput, hread, hkey,
      Option.map_some]
    exact haccounted _ rfl

theorem Accounted.run (hp : ctx.parameters.IsSetup secrets) {w : Watched S ρ}
    (h : w.Accounted ctx) (events : List (Stimulus S)) : (w.run ctx events).Accounted ctx := by
  induction events generalizing w with
  | nil => exact h
  | cons e events ih => exact ih (h.step hp e)

end Steps

end Watched

/-! ## The closed form -/

variable [Generator ρ] [Generator σ]

/-- **The key material of a group in closed form.** Let the parameters come from a successful setup,
and let a coordinator take any steps. Then each group it holds is the sum of what the holders of
its slots contribute, the joiners of its ledger for the slots in it and the pseudo members of its
tier for all others. The order of the ledger does not matter: a group of the same name whose ledger
has the same joins, in this run or another, is the same group. -/
theorem groups_closed_form [S.AbelianSources] {ctx : Context S} {level : UInt32}
    {maxGroupSize sizeStep : Nat} {r r' : σ} {secrets : SlotSecrets S}
    (hsetup : Parameters.setup level maxGroupSize sizeStep r =
      (.ok (ctx.parameters, secrets), r'))
    {pid : UInt32} {generator : ρ} {c : Coordinator S ρ}
    (hnew : Coordinator.new ctx pid secrets generator = .ok c) (events : List (Stimulus S))
    {id : GroupId} {g : ManagedGroup S}
    (hg : ((Watched.start c).run ctx events).coordinator.groups[id]? = some g) :
    let joins := ((Watched.start c).run ctx events).ledger id
    (∃ t, ctx.parameters.tier id.tier = .ok t ∧ g.Balanced t joins) ∧
      ∀ (events' : List (Stimulus S)) (g' : ManagedGroup S),
        ((Watched.start c).run ctx events').coordinator.groups[id]? = some g' →
        joins.Perm (((Watched.start c).run ctx events').ledger id) → g = g' := by
  intro joins
  have hp := Parameters.isSetup_of_setup hsetup
  have haccounted := fun events => (Watched.accounted_new hnew).run hp events
  obtain ⟨t, ht, hgid, htier, hexpiry, hbal⟩ := haccounted events id g hg
  refine ⟨⟨t, ht, hbal⟩, ?_⟩
  intro events' g' hg' hperm
  obtain ⟨t', ht', hgid', htier', hexpiry', hbal'⟩ := haccounted events' id g' hg'
  obtain rfl : t = t' := Except.ok.inj (ht.symm.trans ht')
  exact hbal.eq_of_perm hbal' hperm (hgid.trans hgid'.symm) (htier.trans htier'.symm)
    (hexpiry.trans hexpiry'.symm)

/-! ### A run with one join -/

/-- A new coordinator for groups of two. -/
def sampleNew : Coordinator .sample Counter :=
  ((Coordinator.new sampleContext 0 sampleSetup.2 (Counter.mk 5)).toOption).get (by decide +kernel)

/-- The name of the first group that it founds. -/
def sampleGroup : GroupId := .new 0 0 ⟨60001000⟩

/-- The group is founded, and member 1 is handed its first slot. -/
def sampleOpening : List (Stimulus .sample) :=
  [⟨.empty, ⟨1000⟩, .timer .heartbeat⟩,
    ⟨.empty, ⟨2000⟩, .frame (Message.encode (S := .sample) (.heartbeatAck ⟨.unset, 1, 0⟩))⟩]

/-- The same with the join of member 1 after it. -/
def sampleJoin? : Option (List (Stimulus .sample)) := do
  let g ←
    ((Watched.start sampleNew).run sampleContext sampleOpening).coordinator.groups[sampleGroup]?
  let out := Engine.empty.prove sampleContext.parameters sampleGroup g.info.key 0 0
    ⟨.empty, Counter.mk 9⟩
  let proof ← out.result.toOption
  return sampleOpening ++
    [⟨out.resources.directory, ⟨3000⟩, .frame (Message.encode (.join ⟨1, proof⟩))⟩]

/-- In this run the join is accepted, and the closed form has one joiner. -/
theorem groups_closed_form_one_join :
    ∃ events g t join, sampleJoin? = some events ∧
      ((Watched.start sampleNew).run sampleContext events).coordinator.groups[sampleGroup]? =
        some g ∧
      ((Watched.start sampleNew).run sampleContext events).ledger sampleGroup = [join] ∧
      g.Balanced t [join] := by
  have hrun : (sampleJoin?.any fun events =>
      let w := (Watched.start sampleNew).run sampleContext events
      w.coordinator.groups[sampleGroup]?.isSome && (w.ledger sampleGroup).length == 1) = true := by
    decide +kernel
  obtain ⟨events, hevents, hrun⟩ := (Option.any_eq_true _ _).1 hrun
  simp only [Bool.and_eq_true, beq_iff_eq] at hrun
  obtain ⟨g, hg⟩ := Option.isSome_iff_exists.1 hrun.1
  obtain ⟨join, hjoin⟩ := List.length_eq_one_iff.1 hrun.2
  have hnew : Coordinator.new sampleContext 0 sampleSetup.2 (Counter.mk 5) = .ok sampleNew :=
    eq_ok_of_toOption (by decide +kernel)
  obtain ⟨⟨t, -, hbal⟩, -⟩ := groups_closed_form setup_sample hnew events hg
  exact ⟨events, g, t, join, hevents, hg, hjoin, hjoin ▸ hbal⟩

end GroupKey.Coordinator
