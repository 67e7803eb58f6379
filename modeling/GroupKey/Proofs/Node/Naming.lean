import GroupKey.Proofs.Node.Admission

/-!
# The names of groups

A group is named by its number, its tier and its expiry. Numbers have sixteen bits and wrap, and a
founded group replaces the one of its name, if that is held. So what keeps two groups apart that are
founded 65536 after one another is their expiry alone. The names that a coordinator has given are
kept here beside its state, and so are the slots that it has granted.

* `names`, `grants` — the groups that a run founds and the slots that it grants, in order.
* `Tends`, `tends_react` — a step, by what it does to the groups.
* `Named`, `Granted` — what the state tells of the names and grants so far; kept by every step.
* `Named.live_iff` — when a new group has the name of a live one.
* `Named.run`, `Granted.run` — names and grants of a whole run.
-/

namespace GroupKey

variable {S : Suite} {ρ : Type}

/-- The slot that a message grants, with its group. -/
def Message.granted? : Message S → Option (GroupId × UInt32)
  | .joinAck ack => some (ack.group, ack.slot)
  | _ => none

theorem Message.granted?_of_not_concernsGroups {m : Message S} (h : ¬ m.ConcernsGroups) :
    m.granted? = none := by
  cases m with
  | joinAck => exact absurd trivial h
  | _ => rfl

theorem ManagedGroup.id_bootstrap {p : Parameters S} {seq tier : UInt16} {expiry : Timestamp}
    {g : ManagedGroup S} (h : ManagedGroup.bootstrap p seq tier expiry = .ok g) :
    g.info.id = .new seq tier expiry := by
  unfold ManagedGroup.bootstrap at h
  split at h
  · cases h
  · exact Except.ok.inj h ▸ rfl

namespace Coordinator

/-- The slots that an answer grants. -/
def granted (answer : Except NodeError (List (Message S))) : List (GroupId × UInt32) :=
  (emitted answer).filterMap Message.granted?

/-! ## What a step does to the groups -/

/-- A step from `c` to `c'`, by the groups that it founds and the slots that it grants. -/
inductive Tends (ctx : Context S) (now : Timestamp) (c c' : Coordinator S ρ) :
    List GroupId → List (GroupId × UInt32) → Prop
  | keeps (groups : c'.groups = c.groups) (next : c'.nextGroupSeq = c.nextGroupSeq) :
      Tends ctx now c c' [] []
  | drops (groups : c'.groups = c.live now) (next : c'.nextGroupSeq = c.nextGroupSeq) :
      Tends ctx now c c' [] []
  | founds (id : GroupId) (g : ManagedGroup S)
      (name : id = .new c.nextGroupSeq c.tier (now + ctx.config.groupLifetime))
      (groups : c'.groups = (c.live now).insert id g)
      (next : c'.nextGroupSeq = c.nextGroupSeq + 1) : Tends ctx now c c' [id] []
  /-- A join that fails late may leave its mark on a group, but takes no slot. -/
  | changes (id : GroupId) (g g' : ManagedGroup S) (held : c.groups[id]? = some g)
      (groups : c'.groups = c.groups.insert id g')
      (kept : ∀ slot, g.info.isOccupied slot = true → g'.info.isOccupied slot = true)
      (next : c'.nextGroupSeq = c.nextGroupSeq) : Tends ctx now c c' [] []
  | seats (id : GroupId) (slot : UInt32) (g g' : ManagedGroup S) (held : c.groups[id]? = some g)
      (free : g.info.isOccupied slot = false) (groups : c'.groups = c.groups.insert id g')
      (kept : ∀ slot, g.info.isOccupied slot = true → g'.info.isOccupied slot = true)
      (taken : g'.info.isOccupied slot = true) (next : c'.nextGroupSeq = c.nextGroupSeq) :
      Tends ctx now c c' [] [(id, slot)]

variable {ctx : Context S} {c c' : Coordinator S ρ} {e : Stimulus S} {now : Timestamp}
  {ids founded : List GroupId} {slots granted' : List (GroupId × UInt32)}
  {r : Except NodeError (List (Message S)) × Coordinator S ρ}

theorem granted_of_quiet (h : Quiet c r) : granted r.1 = [] := by
  rcases hr : r.1 with err | ms
  · rfl
  · exact List.filterMap_eq_nil_iff.2 fun m hm =>
      Message.granted?_of_not_concernsGroups (h.silent ms hr m hm)

theorem tends_of_quiet (h : Quiet c r) :
    Tends ctx now c r.2 (founded? c r.2).toList (granted r.1) := by
  rw [granted_of_quiet h, Watched.founded?_of_same h.same.nextGroupSeq]
  exact .keeps h.same.groups h.same.nextGroupSeq

theorem Ticks.tends (h : Ticks ctx now c .heartbeat r) :
    Tends ctx now c r.2 (founded? c r.2).toList (granted r.1) := by
  cases h with
  | stalled =>
    rw [Watched.founded?_rest]
    exact .drops rfl rfl
  | continued =>
    rw [Watched.founded?_afterHeartbeat, Watched.founded?_rest]
    exact .drops rfl rfl
  | @founded g filled founds =>
    rw [Watched.founded?_afterHeartbeat, Watched.founded?_withGroup]
    exact .founds _ g (ManagedGroup.id_bootstrap founds) rfl rfl

/-- **A heartbeat leaves every live group as it is**, unless it founds one of this name. -/
theorem Ticks.groups (h : Ticks ctx now c .heartbeat r) :
    (∀ id, founded? c r.2 ≠ some id → r.2.groups[id]? = (c.live now)[id]?) ∧
      ∀ id, founded? c r.2 = some id →
        id = .new c.nextGroupSeq c.tier (now + ctx.config.groupLifetime) := by
  cases h with
  | stalled | continued => exact ⟨fun id _ => rfl, by simp⟩
  | @founded g filled founds =>
    simp only [Watched.founded?_afterHeartbeat, Watched.founded?_withGroup, ne_eq,
      Option.some.injEq]
    refine ⟨fun id hne => getElem?_insert_of_ne hne, ?_⟩
    rintro id rfl
    exact ManagedGroup.id_bootstrap founds

/-! ## The names given so far -/

/-- The names of the groups founded until `last`, in order: their numbers count up, and none expires
before the one that it follows. Those that are not expired are held, and no others. -/
structure Named (ctx : Context S) (last : Timestamp) (ids : List GroupId) (c : Coordinator S ρ) :
    Prop where
  next : c.nextGroupSeq = .ofNat ids.length
  name : ∀ (k : Nat) (id : GroupId), ids[k]? = some id → id = .new (.ofNat k) c.tier id.expiry
  sorted : ids.Pairwise fun a b => a.expiry ≤ b.expiry
  recent : ∀ id ∈ ids, id.expiry ≤ last + ctx.config.groupLifetime
  held : ∀ (id : GroupId) (g : ManagedGroup S), c.groups[id]? = some g → id ∈ ids
  kept : ∀ id ∈ ids, last ≤ id.expiry → ∃ g, c.groups[id]? = some g

theorem Named.mono {last last' : Timestamp} (h : Named ctx last ids c) (hle : last ≤ last') :
    Named ctx last' ids c where
  next := h.next
  name := h.name
  sorted := h.sorted
  recent id hid := Timestamp.le_trans (h.recent id hid) (Timestamp.add_le_add hle _)
  held := h.held
  kept id hid hlive := h.kept id hid (Timestamp.le_trans hle hlive)

/-- Only a group that is held is live, and it is if its name says so. -/
theorem IsConsistent.live_iff (hc : c.IsConsistent ctx) {id : GroupId} {g : ManagedGroup S} :
    (c.live now)[id]? = some g ↔ c.groups[id]? = some g ∧ now ≤ id.expiry := by
  rw [live, Std.ExtTreeMap.getElem?_filter', Option.filter_eq_some_iff, ← Timestamp.not_lt]
  refine and_congr_right fun hg => ?_
  have hgroup := hc.group id g hg
  rw [← hgroup.id, hgroup.expiry, Snapshot.isExpired, Bool.not_eq_true', decide_eq_false_iff_not]

theorem Named.keep (h : Named ctx now ids c) (htier : c'.tier = c.tier)
    (hnext : c'.nextGroupSeq = c.nextGroupSeq)
    (hsub : ∀ (id : GroupId) (g : ManagedGroup S), c'.groups[id]? = some g →
      ∃ g, c.groups[id]? = some g)
    (hkept : ∀ (id : GroupId) (g : ManagedGroup S), c.groups[id]? = some g → now ≤ id.expiry →
      ∃ g, c'.groups[id]? = some g) : Named ctx now ids c' where
  next := hnext.trans h.next
  name := htier ▸ h.name
  sorted := h.sorted
  recent := h.recent
  held id g hg := by
    obtain ⟨g, hg⟩ := hsub id g hg
    exact h.held id g hg
  kept id hid hlive := by
    obtain ⟨g, hg⟩ := h.kept id hid hlive
    exact hkept id g hg hlive

/-- A group that is founded has the next name. -/
theorem Named.found (h : Named ctx now ids c) (hc : c.IsConsistent ctx) (htier : c'.tier = c.tier)
    {id : GroupId} {g : ManagedGroup S}
    (hname : id = .new c.nextGroupSeq c.tier (now + ctx.config.groupLifetime))
    (hgroups : c'.groups = (c.live now).insert id g)
    (hnext : c'.nextGroupSeq = c.nextGroupSeq + 1) : Named ctx now (ids ++ [id]) c' where
  next := by
    rw [hnext, h.next, List.length_append, List.length_singleton, UInt16.ofNat_add]
    rfl
  name k id' hid' := by
    rw [htier]
    rcases Nat.lt_or_ge k ids.length with hk | hk
    · rw [List.getElem?_append_left hk] at hid'
      exact h.name k id' hid'
    · rw [List.getElem?_append_right hk] at hid'
      obtain ⟨hone, rfl⟩ := List.getElem?_eq_some_iff.1 hid'
      rw [List.length_singleton] at hone
      obtain rfl : k = ids.length := by omega
      rw [List.getElem_singleton, hname, h.next]
      rfl
  sorted := by
    refine List.pairwise_append.2 ⟨h.sorted, List.pairwise_singleton _ _, fun a ha b hb => ?_⟩
    rw [List.mem_singleton.1 hb, hname]
    exact h.recent a ha
  recent id' hid' := by
    rcases List.mem_append.1 hid' with hid' | hid'
    · exact h.recent id' hid'
    · rw [List.mem_singleton.1 hid', hname]
      exact Timestamp.le_refl _
  held id' g' hg' := by
    rw [hgroups] at hg'
    rcases getElem?_insert_cases hg' with ⟨rfl, -⟩ | ⟨-, hg'⟩
    · exact List.mem_append_right _ (List.mem_singleton_self _)
    · exact List.mem_append_left _ (h.held id' g' (of_getElem?_live hg'))
  kept id' hid' hlive := by
    rw [hgroups]
    -- A group that is alive and has another name was not replaced.
    by_cases heq : id = id'
    · exact ⟨g, heq ▸ Std.ExtTreeMap.getElem?_insert_self⟩
    · rw [getElem?_insert_of_ne heq]
      have hid' : id' ∈ ids := by
        simpa [Ne.symm heq] using hid'
      obtain ⟨g', hg'⟩ := h.kept id' hid' hlive
      exact ⟨g', hc.live_iff.2 ⟨hg', hlive⟩⟩

/-- **The names given are kept by every step.** -/
theorem Named.step (h : Named ctx now ids c) (hc : c.IsConsistent ctx) (htier : c'.tier = c.tier)
    (ht : Tends ctx now c c' founded slots) : Named ctx now (ids ++ founded) c' := by
  have hreplaced : ∀ {id : GroupId} {g g' : ManagedGroup S}, c.groups[id]? = some g →
      c'.groups = c.groups.insert id g' → c'.nextGroupSeq = c.nextGroupSeq →
        Named ctx now ids c' := by
    intro id g g' hg hgroups hnext
    refine h.keep htier hnext (fun id' g₁ hg₁ => ?_) fun id' g₁ hg₁ _ => ?_
    · exact (exists_getElem?_insert hg).1 ⟨g₁, hgroups ▸ hg₁⟩
    · rw [hgroups]
      exact (exists_getElem?_insert hg).2 ⟨g₁, hg₁⟩
  cases ht with
  | keeps groups next =>
    rw [List.append_nil]
    exact h.keep htier next (fun id g hg => ⟨g, groups ▸ hg⟩) fun id g hg _ => ⟨g, groups ▸ hg⟩
  | drops groups next =>
    rw [List.append_nil]
    refine h.keep htier next (fun id g hg => ?_) fun id g hg hlive => ?_
    · exact ⟨g, of_getElem?_live (groups ▸ hg)⟩
    · exact ⟨g, groups ▸ hc.live_iff.2 ⟨hg, hlive⟩⟩
  | founds id g name groups next => exact h.found hc htier name groups next
  | changes id g g' held groups kept next =>
    rw [List.append_nil]
    exact hreplaced held groups next
  | seats id slot g g' held free groups kept taken next =>
    rw [List.append_nil]
    exact hreplaced held groups next

theorem ofNat_eq_iff {i j : Nat} : UInt16.ofNat i = .ofNat j ↔ i % 65536 = j % 65536 := by
  rw [← UInt16.toNat_inj, UInt16.toNat_ofNat', UInt16.toNat_ofNat']

theorem Named.expiry_le (h : Named ctx now ids c) {i j : Nat} (hle : i ≤ j) {id id' : GroupId}
    (hi : ids[i]? = some id) (hj : ids[j]? = some id') : id.expiry ≤ id'.expiry := by
  rcases Nat.lt_or_eq_of_le hle with hlt | rfl
  · obtain ⟨hi', rfl⟩ := List.getElem?_eq_some_iff.1 hi
    obtain ⟨hj', rfl⟩ := List.getElem?_eq_some_iff.1 hj
    exact List.pairwise_iff_getElem.1 h.sorted i j hi' hj' hlt
  · obtain rfl := Option.some.inj (hi.symm.trans hj)
    exact Timestamp.le_refl _

/-- **A name that is given again was given 65536 groups before**, if not earlier: the groups between
do not expire before the first and not after the last. -/
theorem Named.again (h : Named ctx now ids c) {i j : Nat} (hlt : i < j) (hj : j ≤ ids.length)
    {id : GroupId} (hi : ids[i]? = some id) (hseq : id.seq = .ofNat j)
    (hexpiry : ∀ k < j, ∀ id', ids[k]? = some id' → id'.expiry ≤ id.expiry) :
    65536 ≤ j ∧ ids[j - 65536]? = some id := by
  have hmod : i % 65536 = j % 65536 := ofNat_eq_iff.1 (by rw [← hseq, h.name i id hi]; rfl)
  have hlt' : j - 65536 < ids.length := by omega
  have hid' : ids[j - 65536]? = some ids[j - 65536] := List.getElem?_eq_getElem hlt'
  have hbetween : ids[j - 65536].expiry = id.expiry :=
    Timestamp.le_antisymm (hexpiry _ (by omega) _ hid') (h.expiry_le (by omega) hi hid')
  have hnumber : UInt16.ofNat (j - 65536) = .ofNat i := ofNat_eq_iff.2 (by omega)
  refine ⟨by omega, hid'.trans (congrArg some ?_)⟩
  rw [h.name _ _ hid', h.name i id hi, hnumber, hbetween]

/-- **When a new group has the name of a live one**: the group founded 65536 before has this name.
-/
theorem Named.live_iff (h : Named ctx now ids c) (hc : c.IsConsistent ctx) {id : GroupId}
    (hid : id = .new c.nextGroupSeq c.tier (now + ctx.config.groupLifetime)) :
    (∃ g, (c.live now)[id]? = some g) ↔
      65536 ≤ ids.length ∧ ids[ids.length - 65536]? = some id := by
  have hexpiry : id.expiry = now + ctx.config.groupLifetime := by rw [hid]; rfl
  have hlive : now ≤ id.expiry := hexpiry ▸ now.le_add _
  constructor
  · rintro ⟨g, hg⟩
    obtain ⟨i, hi, heq⟩ := List.getElem_of_mem (h.held id g (hc.live_iff.1 hg).1)
    refine h.again hi (Nat.le_refl _) (heq ▸ List.getElem?_eq_getElem hi) ?_ fun k _ id' hid' => ?_
    · rw [hid, h.next]
      rfl
    · rw [hexpiry]
      exact h.recent id' (List.mem_of_getElem? hid')
  · rintro ⟨-, hid'⟩
    obtain ⟨g, hg⟩ := h.kept id (List.mem_of_getElem? hid') hlive
    exact ⟨g, hc.live_iff.2 ⟨hg, hlive⟩⟩

/-- **All names are different** if those that are 65536 apart are. -/
theorem Named.nodup (h : Named ctx now ids c)
    (hfar : ∀ (k : Nat) (id : GroupId), ids[k]? = some id → ids[k + 65536]? ≠ some id) :
    ids.Nodup := by
  refine List.nodup_iff_getElem?_ne_getElem?.2 fun i j hlt hj heq => ?_
  have hi : ids[i]? = some ids[j] := heq.trans (List.getElem?_eq_getElem hj)
  have hseq : ids[j].seq = .ofNat j := by
    rw [h.name j ids[j] (List.getElem?_eq_getElem hj)]
    rfl
  obtain ⟨hle, hagain⟩ := h.again hlt hj.le hi hseq fun k hk id' hid' =>
    h.expiry_le hk.le hid' (List.getElem?_eq_getElem hj)
  refine hfar _ _ hagain ?_
  rw [Nat.sub_add_cancel hle]
  exact List.getElem?_eq_getElem hj

/-! ## The slots granted so far -/

/-- The slots that were granted are taken, as long as their groups are held. -/
structure Granted (ids : List GroupId) (slots : List (GroupId × UInt32)) (c : Coordinator S ρ) :
    Prop where
  held : ∀ (id : GroupId) (g : ManagedGroup S), c.groups[id]? = some g → id ∈ ids
  named : ∀ x ∈ slots, x.1 ∈ ids
  taken : ∀ x ∈ slots, ∀ g : ManagedGroup S, c.groups[x.1]? = some g →
    g.info.isOccupied x.2 = true
  distinct : slots.Nodup

theorem Granted.replace (h : Granted ids slots c) {id : GroupId} {g g' : ManagedGroup S}
    (hg : c.groups[id]? = some g) (hgroups : c'.groups = c.groups.insert id g')
    (hkept : ∀ slot, g.info.isOccupied slot = true → g'.info.isOccupied slot = true) :
    Granted ids slots c' := by
  refine ⟨fun id' g₁ hg₁ => ?_, h.named, fun x hx g₁ hg₁ => ?_, h.distinct⟩ <;>
    rw [hgroups] at hg₁ <;> rcases getElem?_insert_cases hg₁ with ⟨rfl, rfl⟩ | ⟨-, hg₁⟩
  · exact h.held id g hg
  · exact h.held id' g₁ hg₁
  · exact hkept _ (h.taken x hx g hg)
  · exact h.taken x hx g₁ hg₁

/-- **A step grants no slot again**, as long as it does not name a group again. -/
theorem Granted.step (h : Granted ids slots c) (ht : Tends ctx now c c' founded granted')
    (hnew : ∀ id ∈ founded, id ∉ ids) : Granted (ids ++ founded) (slots ++ granted') c' := by
  cases ht with
  | keeps groups next =>
    rw [List.append_nil, List.append_nil]
    exact ⟨groups ▸ h.held, h.named, groups ▸ h.taken, h.distinct⟩
  | drops groups next =>
    rw [List.append_nil, List.append_nil]
    refine ⟨fun id g hg => ?_, h.named, fun x hx g hg => ?_, h.distinct⟩ <;> rw [groups] at hg
    · exact h.held id g (of_getElem?_live hg)
    · exact h.taken x hx g (of_getElem?_live hg)
  | founds id g name groups next =>
    have hid : id ∉ ids := hnew id (List.mem_singleton_self id)
    rw [List.append_nil]
    refine ⟨fun id' g' hg' => ?_, fun x hx => List.mem_append_left _ (h.named x hx),
      fun x hx g' hg' => ?_, h.distinct⟩ <;>
        rw [groups] at hg' <;> rcases getElem?_insert_cases hg' with ⟨rfl, -⟩ | ⟨-, hg'⟩
    · exact List.mem_append_right _ (List.mem_singleton_self _)
    · exact List.mem_append_left _ (h.held id' g' (of_getElem?_live hg'))
    · exact absurd (h.named x hx) hid
    · exact h.taken x hx g' (of_getElem?_live hg')
  | changes id g g' held groups kept next =>
    rw [List.append_nil, List.append_nil]
    exact h.replace held groups kept
  | seats id slot g g' held free groups kept taken next =>
    have hsame := h.replace held groups kept
    rw [List.append_nil]
    refine ⟨hsame.held, ?_, ?_, ?_⟩
    · exact List.forall_mem_append.2 ⟨h.named, List.forall_mem_singleton.2 (h.held id g held)⟩
    · refine List.forall_mem_append.2 ⟨hsame.taken, List.forall_mem_singleton.2 fun g₁ hg₁ => ?_⟩
      rw [groups, Std.ExtTreeMap.getElem?_insert_self, Option.some.injEq] at hg₁
      exact hg₁ ▸ taken
    · refine h.distinct.append (List.nodup_singleton _) fun x hx hx' => ?_
      -- a slot granted before is taken, and this one was free
      rw [List.mem_singleton.1 hx'] at hx
      have htaken := h.taken _ hx g held
      rw [free] at htaken
      cases htaken

theorem named_of_numbered (h : c.Numbered 0) (now : Timestamp) : Named ctx now [] c where
  next := UInt16.toNat_inj.1 h.next
  name _ _ hid := by simp at hid
  sorted := .nil
  recent _ hid := absurd hid List.not_mem_nil
  held id g hg := absurd (h.held id g hg) (Nat.not_lt_zero _)
  kept _ hid := absurd hid List.not_mem_nil

theorem granted_of_numbered (h : c.Numbered 0) : Granted [] [] c where
  held id g hg := absurd (h.held id g hg) (Nat.not_lt_zero _)
  named _ hx := absurd hx List.not_mem_nil
  taken _ hx := absurd hx List.not_mem_nil
  distinct := .nil

/-! ## Runs -/

variable [Generator ρ]

/-- The names of the groups that a run founds, in order. -/
def names (ctx : Context S) : Coordinator S ρ → List (Stimulus S) → List GroupId
  | _, [] => []
  | c, e :: events => (founded? c (c.react ctx e).2).toList ++ names ctx (c.react ctx e).2 events

/-- The slots that a run grants, in order. -/
def grants (ctx : Context S) : Coordinator S ρ → List (Stimulus S) → List (GroupId × UInt32)
  | _, [] => []
  | c, e :: events => granted (c.react ctx e).1 ++ grants ctx (c.react ctx e).2 events

/-- **What a step does to the groups**, with what it founds and what it grants. -/
theorem Regroups.tends (h : Regroups ctx e c r) (hp : ctx.parameters.HasNumberedSlots)
    (hc : c.IsConsistent ctx) :
    Tends ctx e.now c r.2 (founded? c r.2).toList (granted r.1) := by
  cases h with
  | quiet quiet => exact tends_of_quiet quiet
  | heartbeat fired ticks => exact ticks.tends
  | @unseated join g g' err arrived admits seat =>
    obtain ⟨-, -, hkept, -⟩ := hc.seat_of_admits hp admits
    rw [seat] at hkept
    rw [Watched.founded?_regroup]
    exact .changes _ g g' admits.held rfl hkept rfl
  | @seated join g g' share arrived admits seat =>
    obtain ⟨-, -, hkept, houtcome⟩ := hc.seat_of_admits hp admits
    rw [seat] at hkept houtcome
    obtain ⟨⟨err, herr⟩, -⟩ | ⟨-, htaken⟩ := houtcome
    · cases herr
    rw [Watched.founded?_welcome]
    exact .seats _ _ g g' admits.held admits.free rfl hkept htaken rfl

theorem tends_react (hp : ctx.parameters.HasNumberedSlots) (hc : c.IsConsistent ctx)
    (e : Stimulus S) : Tends ctx e.now c (c.react ctx e).2 (founded? c (c.react ctx e).2).toList
      (granted (c.react ctx e).1) :=
  (regroups_react ctx e c).tends hp hc

theorem Alters.tier (h : Alters ctx e c r) : r.2.tier = c.tier := by
  cases h with
  | keeps keeps => exact keeps.tier
  | heartbeat fired ticks => cases ticks <;> rfl
  | assigns | unseated | seated => rfl

theorem run_append (ctx : Context S) (c : Coordinator S ρ) (events later : List (Stimulus S)) :
    c.run ctx (events ++ later) = (c.run ctx events).run ctx later :=
  List.foldl_append ..

theorem names_append (ctx : Context S) (c : Coordinator S ρ) (events later : List (Stimulus S)) :
    names ctx c (events ++ later) = names ctx c events ++ names ctx (c.run ctx events) later := by
  induction events generalizing c with
  | nil => rfl
  | cons e events ih =>
    rw [List.cons_append, names, ih, names, List.append_assoc]
    rfl

theorem grants_append (ctx : Context S) (c : Coordinator S ρ) (events later : List (Stimulus S)) :
    grants ctx c (events ++ later) =
      grants ctx c events ++ grants ctx (c.run ctx events) later := by
  induction events generalizing c with
  | nil => rfl
  | cons e events ih =>
    rw [List.cons_append, grants, ih, grants, List.append_assoc]
    rfl

theorem tier_run (ctx : Context S) (c : Coordinator S ρ) (events : List (Stimulus S)) :
    (c.run ctx events).tier = c.tier := by
  induction events generalizing c with
  | nil => rfl
  | cons e events ih => exact (ih (c.react ctx e).2).trans (alters_react ctx e c).tier

/-- **The names given in a run**, if the clock does not go back in it. -/
theorem Named.run (hp : ctx.parameters.HasNumberedSlots) (hc : c.IsConsistent ctx)
    {last : Timestamp} (h : Named ctx last ids c) {events : List (Stimulus S)}
    (hclock : events.Pairwise fun a b => a.now ≤ b.now) (hlast : ∀ e ∈ events, last ≤ e.now)
    (hnow : ∀ e ∈ events, e.now ≤ now) (hle : last ≤ now) :
    Named ctx now (ids ++ names ctx c events) (c.run ctx events) := by
  induction events generalizing c last ids with
  | nil => exact (List.append_nil ids).symm ▸ h.mono hle
  | cons e events ih =>
    rw [List.pairwise_cons] at hclock
    rw [List.forall_mem_cons] at hlast hnow
    rw [names, ← List.append_assoc]
    exact ih (hc.react hp e)
      ((h.mono hlast.1).step hc (alters_react ctx e c).tier (tends_react hp hc e)) hclock.2 hclock.1
      hnow.2 hnow.1

theorem Granted.run (hp : ctx.parameters.HasNumberedSlots) (hc : c.IsConsistent ctx)
    (h : Granted ids slots c) {events : List (Stimulus S)}
    (hnames : (ids ++ names ctx c events).Nodup) :
    Granted (ids ++ names ctx c events) (slots ++ grants ctx c events) (c.run ctx events) := by
  induction events generalizing c ids slots with
  | nil =>
    rw [names, grants, List.append_nil, List.append_nil]
    exact h
  | cons e events ih =>
    rw [names, ← List.append_assoc] at hnames ⊢
    rw [grants, ← List.append_assoc]
    refine ih (hc.react hp e) (h.step (tends_react hp hc e) fun id hid hid' => ?_) hnames
    exact List.disjoint_of_nodup_append hnames.of_append_left hid' hid

end Coordinator

end GroupKey
