import GroupKey.Proofs.Session.Liveness
import Mathlib.Data.List.Perm.Basic
import Mathlib.Logic.Function.Basic

/-!
# The timeline is nothing but an order of the records

Without its timeline the index is a map from members to records: it can be searched for one member,
and for the stale or the most recent ones only record by record. This is the roster. The index does
what the roster does, whatever is done to it and in whatever order the times come; all that the
timeline adds is the order in which members are listed and searched.

* `Op`, `run` — what is done to an index, and the index after it.
* `Roster` — the records alone, with the same operations.
* `Shows`, `shows_run` — the index has the records of the roster, each listed once.
* `index_of_operations` — the lists and searches of the index, told by the roster alone.
-/

namespace GroupKey.Liveness

variable {l : Liveness} {now : Timestamp} {timeout : Duration} {pid : UInt32}

/-! ## Operations -/

/-- What is done to an index. -/
inductive Op where
  /-- A member is heard. -/
  | touch (pid : UInt32) (now : Timestamp) (phase : Phase)
  /-- The slot and the acceptance in a record are written; to write one of them is to repeat the
  other. -/
  | assign (pid : UInt32) (slot : Option (GroupId × UInt32)) (joined : Bool)
  /-- A member is forgotten. -/
  | remove (pid : UInt32)
  /-- The stale members are forgotten. -/
  | evict (now : Timestamp) (timeout : Duration)

/-- The index after an operation. -/
def apply (l : Liveness) : Op → Liveness
  | .touch pid now phase => l.touch pid now phase
  | .assign pid slot joined => l.assign pid slot joined
  | .remove pid => l.remove pid
  | .evict now timeout => (l.evictStale now timeout).2

/-- The index after operations on one in which nobody was heard from. -/
def run (ops : List Op) : Liveness := ops.foldl apply .empty

/-- The records of the members, in no order. -/
abbrev Roster : Type := UInt32 → Option MemberRecord

namespace Roster

/-- The records after an operation. -/
def apply (r : Roster) : Op → Roster
  | .touch pid now phase =>
    Function.update r pid
      (some { (r pid).getD ⟨now, phase, none, false⟩ with lastHeard := now, phase })
  | .assign pid slot joined =>
    Function.update r pid ((r pid).map fun record => { record with slot, joined })
  | .remove pid => Function.update r pid none
  | .evict now timeout => fun pid =>
    (r pid).filter fun record => now.since record.lastHeard ≤ timeout

/-- The records after operations, where there were none before. -/
def run (ops : List Op) : Roster := ops.foldl apply fun _ => none

end Roster

/-! ## The index and the roster -/

/-- The index has the records of the roster, and lists each once under its time. -/
structure Shows (l : Liveness) (r : Roster) : Prop where
  get? : ∀ pid, l.get? pid = r pid
  indexed : l.IsIndexed

theorem IsIndexed.get?_evictStale_eq (h : l.IsIndexed) (pid : UInt32) :
    (l.evictStale now timeout).2.get? pid =
      (l.get? pid).filter fun record => now.since record.lastHeard ≤ timeout := by
  refine Option.ext fun record => ?_
  rw [h.get?_evictStale, Option.filter_eq_some_iff, decide_eq_true_eq]
  exact and_congr_right fun _ => Nat.not_lt

/-- **Every operation does to the index what it does to the roster.** -/
theorem Shows.apply {r : Roster} (h : l.Shows r) (op : Op) : (l.apply op).Shows (r.apply op) := by
  cases op with
  | touch pid now phase =>
    refine ⟨fun q => ?_, h.indexed.touch pid now phase⟩
    rw [Liveness.apply, get?_touch, Roster.apply, Function.update_apply, h.get?, h.get?]
    simp only [eq_comm]
  | assign pid slot joined =>
    refine ⟨fun q => ?_, h.indexed.assign pid slot joined⟩
    rw [Liveness.apply, get?_assign, Roster.apply, Function.update_apply, h.get?, h.get?]
    simp only [eq_comm]
  | remove pid =>
    refine ⟨fun q => ?_, h.indexed.remove pid⟩
    rw [Liveness.apply, get?_remove, Roster.apply, Function.update_apply, h.get?]
    simp only [eq_comm]
  | evict now timeout =>
    refine ⟨fun q => ?_, h.indexed.evictStale now timeout⟩
    rw [Liveness.apply, h.indexed.get?_evictStale_eq, h.get?]
    rfl

theorem Shows.foldl {r : Roster} (h : l.Shows r) (ops : List Op) :
    (ops.foldl Liveness.apply l).Shows (ops.foldl Roster.apply r) := by
  induction ops generalizing l r with
  | nil => exact h
  | cons op ops ih => exact ih (h.apply op)

theorem shows_run (ops : List Op) : (run ops).Shows (Roster.run ops) :=
  Shows.foldl ⟨fun pid => by simp [Liveness.get?, empty], isIndexed_empty⟩ ops

/-! ## The order of the timeline -/

theorem precedes_toList (l : Liveness) : l.timeline.toList.Pairwise Heard.Precedes :=
  l.timeline.ordered_toList.imp Heard.precedes_of_compare

theorem IsIndexed.nodup_pids (h : l.IsIndexed) : (l.timeline.toList.map (·.pid)).Nodup := by
  refine List.pairwise_map.2 (l.precedes_toList.imp_of_mem fun {a b} ha hb hab hpid => ?_)
  obtain ⟨record, hrecord, htime⟩ := (h a).1 (Std.ExtTreeSet.mem_toList.1 ha)
  obtain ⟨record', hrecord', htime'⟩ := (h b).1 (Std.ExtTreeSet.mem_toList.1 hb)
  rw [hpid, hrecord', Option.some.injEq] at hrecord
  subst hrecord
  refine hab.ne ?_
  cases a
  cases b
  exact congrArg₂ Heard.mk (htime.symm.trans htime') hpid

theorem IsIndexed.size_timeline (h : l.IsIndexed) : l.timeline.size = l.size := by
  have hperm : (l.timeline.toList.map (·.pid)).Perm l.records.keys := by
    refine (List.perm_ext_iff_of_nodup h.nodup_pids l.records.nodup_keys).2 fun pid => ?_
    rw [Std.ExtTreeMap.mem_keys, Std.ExtTreeMap.mem_iff_isSome_getElem?, List.mem_map]
    constructor
    · rintro ⟨heard, hheard, rfl⟩
      obtain ⟨record, hrecord, -⟩ := (h heard).1 (Std.ExtTreeSet.mem_toList.1 hheard)
      exact Option.isSome_of_mem hrecord
    · intro hsome
      obtain ⟨record, hrecord⟩ := Option.isSome_iff_exists.1 hsome
      have hlisted := (h ⟨record.lastHeard, pid⟩).2 ⟨record, hrecord, rfl⟩
      exact ⟨_, Std.ExtTreeSet.mem_toList.2 hlisted, rfl⟩
  have hlength := hperm.length_eq
  rwa [List.length_map, Std.ExtTreeSet.length_toList, Std.ExtTreeMap.length_keys] at hlength

/-- **The members that are evicted are listed in the order in which they were heard.** -/
theorem precedes_stale (l : Liveness) (now : Timestamp) (timeout : Duration) :
    (l.stale now timeout).Pairwise Heard.Precedes :=
  l.precedes_toList.sublist (List.takeWhile_sublist _)

/-! ## The most recent member -/

section Search

variable {pred : MemberRecord → Bool} {record record' : MemberRecord} {pid' : UInt32}

theorem IsMostRecent.unique (h : l.IsMostRecent pred pid record)
    (h' : l.IsMostRecent pred pid' record') : pid = pid' :=
  congrArg Heard.pid ((h'.latest pid record h.get h.suits).antisymm
    (h.latest pid' record' h'.get h'.suits))

theorem IsIndexed.mostRecent?_eq_none_iff (h : l.IsIndexed) : l.mostRecent? pred = none ↔
    ∀ pid record, l.get? pid = some record → pred record = false := by
  refine ⟨fun hnone pid record hrecord => h.unfit_of_mostRecent? hnone hrecord, fun hunfit => ?_⟩
  cases hfound : l.mostRecent? pred with
  | none => rfl
  | some pid =>
    obtain ⟨record, hrecent⟩ := h.isMostRecent hfound
    simpa [hrecent.suits] using hunfit pid record hrecent.get

/-- **The search finds the most recent member, and nobody else.** -/
theorem IsIndexed.mostRecent?_eq_some_iff (h : l.IsIndexed) : l.mostRecent? pred = some pid ↔
    ∃ record, l.IsMostRecent pred pid record := by
  refine ⟨h.isMostRecent, ?_⟩
  rintro ⟨record, hrecent⟩
  cases hfound : l.mostRecent? pred with
  | none =>
    have hunfit := h.mostRecent?_eq_none_iff.1 hfound pid record hrecent.get
    simp [hrecent.suits] at hunfit
  | some pid' =>
    obtain ⟨record', hrecent'⟩ := h.isMostRecent hfound
    rw [hrecent'.unique hrecent]

end Search

/-! ## Lists and searches -/

/-- **The index is a map in order of time.** Let any operations be done to an index in which nobody
was heard from, with times in any order. It has the records of the roster. Its timeline lists just
these, under the times at which they were heard last, and no member twice. The members that are
evicted are those that were silent for longer than the timeout, in the order in which they were
heard, and the other records stay as they are. And the search finds the member that was heard last
of all that suit, if there is any. -/
theorem index_of_operations (ops : List Op) :
    let l := run ops
    let roster := Roster.run ops
    (∀ pid, l.get? pid = roster pid) ∧
    (∀ heard, heard ∈ l.timeline ↔
      ∃ record, roster heard.pid = some record ∧ record.lastHeard = heard.time) ∧
    l.timeline.size = l.size ∧
    (∀ now timeout, ∃ stale : List Heard,
      (l.evictStale now timeout).1 = stale.map (·.pid) ∧ stale.Pairwise Heard.Precedes ∧
      (∀ heard, heard ∈ stale ↔ ∃ record, roster heard.pid = some record ∧
        record.lastHeard = heard.time ∧ timeout < now.since record.lastHeard) ∧
      ∀ pid, (l.evictStale now timeout).2.get? pid =
        (roster pid).filter fun record => now.since record.lastHeard ≤ timeout) ∧
    ∀ pred,
      (∀ pid, l.mostRecent? pred = some pid ↔ ∃ record, l.IsMostRecent pred pid record) ∧
      (l.mostRecent? pred = none ↔
        ∀ pid record, roster pid = some record → pred record = false) := by
  intro l roster
  obtain ⟨hget, hindexed⟩ : l.Shows roster := shows_run ops
  simp only [← hget]
  refine ⟨fun _ => trivial, hindexed, hindexed.size_timeline, fun now timeout => ?_, fun pred =>
    ⟨fun pid => hindexed.mostRecent?_eq_some_iff, hindexed.mostRecent?_eq_none_iff⟩⟩
  refine ⟨l.stale now timeout, rfl, l.precedes_stale now timeout, fun heard => ?_,
    hindexed.get?_evictStale_eq⟩
  rw [mem_stale, hindexed heard]
  constructor
  · rintro ⟨⟨record, hrecord, htime⟩, hstale⟩
    exact ⟨record, hrecord, htime, htime ▸ hstale⟩
  · rintro ⟨record, hrecord, htime, hsilent⟩
    rw [htime] at hsilent
    exact ⟨⟨record, hrecord, htime⟩, hsilent⟩

end GroupKey.Liveness
