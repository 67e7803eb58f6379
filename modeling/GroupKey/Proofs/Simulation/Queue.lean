import GroupKey.Proofs.Maps
import GroupKey.Simulation.Queue

/-!
# The order of the event queue

A queue numbers the events as they are scheduled. So no two of them wait at the same moment, and the
one that is taken comes before all others: it is due first, and of those due together it was
scheduled first.

* `Moment.Precedes` — the order in which events are taken.
* `IsBuilt`, `IsNumbered` — how queues come about, and that their events are told apart by number.
* `perm_schedule`, `next?_cases` — what scheduling adds and taking removes.
* `scheduleAll` — several events, scheduled one after another.
* `pending` — what waits and when it is due, whatever the numbers.
-/

namespace GroupKey

/-! ## Moments -/

namespace Moment

/-- The earlier comes first, and of two at the same time the one scheduled first. -/
def Precedes (a b : Moment) : Prop := a.time < b.time ∨ a.time = b.time ∧ a.seq < b.seq

theorem compare_eq_lt {a b : Moment} : compare a b = .lt ↔ a.Precedes b := by
  have htime : compare a.time b.time = .lt ↔ a.time < b.time := Std.compare_eq_lt (α := UInt64)
  change compareLex (compareOn time) (compareOn seq) a b = .lt ↔ _
  rw [compareLex, Ordering.then_eq_lt, compareOn, compareOn, htime, Std.compare_eq_lt,
    Std.compare_eq_iff_eq]
  rfl

theorem precedes_of_le {a b : Moment} (hle : a.time ≤ b.time) (hseq : a.seq < b.seq) :
    a.Precedes b := by
  rcases UInt64.lt_or_eq_of_le hle with hlt | heq
  · exact .inl hlt
  · exact .inr ⟨Timestamp.le_antisymm hle (UInt64.le_of_eq heq.symm), hseq⟩

theorem Precedes.le {a b : Moment} (h : a.Precedes b) : a.time ≤ b.time := by
  rcases h with h | ⟨h, -⟩
  · exact UInt64.le_of_lt h
  · rw [h]
    exact Timestamp.le_refl _

end Moment

namespace EventQueue

variable {q rest : EventQueue} {moment : Moment} {event : Event} {stop : Timestamp}

/-! ## Waiting events -/

/-- The events that wait, in order. -/
def entries (q : EventQueue) : List (Moment × Event) := q.waiting.toList

theorem mem_entries {x : Moment × Event} : x ∈ q.entries ↔ q.waiting[x.1]? = some x.2 :=
  Std.ExtTreeMap.mem_toList_iff_getElem?_eq_some

theorem entries_sorted (q : EventQueue) :
    q.entries.Pairwise fun x y => x.1.Precedes y.1 :=
  Std.ExtTreeMap.ordered_keys_toList.imp Moment.compare_eq_lt.1

/-- `rest` is `q` without the event at `moment`, which comes before all others. -/
structure Pops (q : EventQueue) (moment : Moment) (event : Event) (rest : EventQueue) : Prop where
  perm : q.entries.Perm ((moment, event) :: rest.entries)
  first : ∀ x ∈ rest.entries, moment.Precedes x.1
  nextSeq : rest.nextSeq = q.nextSeq

theorem Pops.mem (h : q.Pops moment event rest) : (moment, event) ∈ q.entries :=
  h.perm.mem_iff.2 List.mem_cons_self

theorem Pops.subset (h : q.Pops moment event rest) : ∀ x ∈ rest.entries, x ∈ q.entries :=
  fun _ hx => h.perm.mem_iff.2 (List.mem_cons_of_mem _ hx)

/-- **What is taken from a queue**: nothing if nothing is due, else the first event. -/
theorem next?_cases (q : EventQueue) (stop : Timestamp) :
    (q.next? stop = none ∧ ∀ x ∈ q.entries, stop < x.1.time) ∨
      ∃ moment event rest, q.next? stop = some (moment, event, rest) ∧ moment.time ≤ stop ∧
        q.Pops moment event rest := by
  have hsorted := q.entries_sorted
  have hhead : q.waiting.entryAtIdx? 0 = q.entries.head? := entryAtIdx?_zero _
  cases hentries : q.entries with
  | nil =>
    refine .inl ⟨?_, by simp⟩
    rw [next?, hhead, hentries, List.head?_nil]
  | cons x xs =>
    obtain ⟨moment, event⟩ := x
    rw [hentries] at hsorted
    obtain ⟨hfirst, -⟩ := List.pairwise_cons.1 hsorted
    rw [next?, hhead, hentries, List.head?_cons]
    by_cases hdue : moment.time ≤ stop
    · refine .inr ⟨moment, event, _, if_pos hdue, hdue, ?_⟩
      have hmem : (moment, event) ∈ q.entries := by simp [hentries]
      have hperm : ((moment, event) :: xs).Perm
          ((moment, event) :: (q.waiting.erase moment).toList) :=
        hentries ▸ toList_perm (mem_entries.1 hmem)
      exact ⟨hentries ▸ hperm, fun x hx => hfirst x (hperm.cons_inv.mem_iff.2 hx), rfl⟩
    · have hlate : stop < moment.time := UInt64.not_le.1 hdue
      refine .inl ⟨if_neg hdue, List.forall_mem_cons.2 ⟨hlate, fun x hx => ?_⟩⟩
      exact UInt64.lt_of_lt_of_le hlate (hfirst x hx).le

/-! ## Numbers -/

/-- Every event has a number of its own, below the next one. -/
structure IsNumbered (q : EventQueue) : Prop where
  below : ∀ x ∈ q.entries, x.1.seq < q.nextSeq
  nodup : (q.entries.map (·.1.seq)).Nodup

theorem isNumbered_empty : empty.IsNumbered where
  below _ hx := by cases hx
  nodup := .nil

/-- **Scheduling adds one event**, under the next number. -/
theorem perm_schedule (h : q.IsNumbered) (time : Timestamp) (event : Event) :
    (q.schedule time event).entries.Perm ((⟨time, q.nextSeq⟩, event) :: q.entries) := by
  refine toList_insert_perm ?_ event
  cases hfound : q.waiting[(⟨time, q.nextSeq⟩ : Moment)]? with
  | none => rfl
  | some event' => exact absurd (h.below (_, event') (mem_entries.2 hfound)) (Nat.lt_irrefl _)

theorem IsNumbered.schedule (h : q.IsNumbered) (time : Timestamp) (event : Event) :
    (q.schedule time event).IsNumbered where
  below x hx := by
    rcases List.mem_cons.1 ((perm_schedule h time event).mem_iff.1 hx) with rfl | hx
    · exact Nat.lt_succ_self _
    · exact Nat.lt_succ_of_lt (h.below x hx)
  nodup := by
    rw [((perm_schedule h time event).map _).nodup_iff, List.map_cons, List.nodup_cons]
    refine ⟨fun hmem => ?_, h.nodup⟩
    obtain ⟨x, hx, heq⟩ := List.mem_map.1 hmem
    exact Nat.lt_irrefl _ (heq ▸ h.below x hx)

theorem IsNumbered.pops (h : q.IsNumbered) (hpops : q.Pops moment event rest) :
    rest.IsNumbered where
  below x hx := hpops.nextSeq ▸ h.below x (hpops.subset x hx)
  nodup := (List.nodup_cons.1 ((hpops.perm.map _).nodup_iff.1 h.nodup)).2

/-- The queues that come of scheduling and taking events. -/
inductive IsBuilt : EventQueue → Prop
  | empty : IsBuilt .empty
  | schedule {q : EventQueue} (h : IsBuilt q) (time : Timestamp) (event : Event) :
    IsBuilt (q.schedule time event)
  | next {q rest : EventQueue} {stop : Timestamp} {moment : Moment} {event : Event} (h : IsBuilt q)
    (hnext : q.next? stop = some (moment, event, rest)) : IsBuilt rest

theorem pops_of_next? (h : q.next? stop = some (moment, event, rest)) :
    moment.time ≤ stop ∧ q.Pops moment event rest := by
  rcases q.next?_cases stop with ⟨hnone, -⟩ | ⟨moment', event', rest', hsome, hdue, hpops⟩
  · simp [hnone] at h
  · obtain ⟨rfl, rfl, rfl⟩ : moment' = moment ∧ event' = event ∧ rest' = rest := by
      simpa using hsome.symm.trans h
    exact ⟨hdue, hpops⟩

/-- **The events of a queue are told apart by their numbers**, however it came about. -/
theorem IsBuilt.isNumbered (h : q.IsBuilt) : q.IsNumbered := by
  induction h with
  | empty => exact isNumbered_empty
  | schedule _ time event ih => exact ih.schedule time event
  | next _ hnext ih => exact ih.pops (pops_of_next? hnext).2

/-! ## Several events -/

/-- Schedules events one after another. -/
def scheduleAll (q : EventQueue) (added : List (Timestamp × Event)) : EventQueue :=
  added.foldl (fun q x => q.schedule x.1 x.2) q

theorem scheduleAll_append (q : EventQueue) (added later : List (Timestamp × Event)) :
    q.scheduleAll (added ++ later) = (q.scheduleAll added).scheduleAll later :=
  List.foldl_append

theorem IsBuilt.scheduleAll (h : q.IsBuilt) (added : List (Timestamp × Event)) :
    (q.scheduleAll added).IsBuilt := by
  induction added generalizing q with
  | nil => exact h
  | cons x added ih => exact ih (h.schedule x.1 x.2)

/-- Events with the numbers under which they are scheduled. -/
def numbered (next : Nat) : List (Timestamp × Event) → List (Moment × Event)
  | [] => []
  | (time, event) :: added => (⟨time, next⟩, event) :: numbered (next + 1) added

theorem seqs_numbered (next : Nat) (added : List (Timestamp × Event)) :
    (numbered next added).map (·.1.seq) = List.range' next added.length := by
  induction added generalizing next with
  | nil => rfl
  | cons x added ih => simp [numbered, ih, List.range'_succ]

theorem mem_numbered {next : Nat} {added : List (Timestamp × Event)} {x : Moment × Event}
    (h : x ∈ numbered next added) : next ≤ x.1.seq ∧ (x.1.time, x.2) ∈ added := by
  induction added generalizing next with
  | nil => cases h
  | cons y added ih =>
    rcases List.mem_cons.1 h with rfl | h
    · exact ⟨Nat.le_refl _, List.mem_cons_self⟩
    · obtain ⟨hle, hmem⟩ := ih h
      exact ⟨Nat.le_of_succ_le hle, List.mem_cons_of_mem _ hmem⟩

theorem times_numbered (next : Nat) (added : List (Timestamp × Event)) :
    (numbered next added).map (fun x => (x.1.time, x.2)) = added := by
  induction added generalizing next with
  | nil => rfl
  | cons x added ih => simp [numbered, ih]

theorem events_numbered (next : Nat) (added : List (Timestamp × Event)) :
    (numbered next added).map (·.2) = added.map (·.2) := by
  conv_rhs => rw [← times_numbered next added, List.map_map]
  rfl

/-- **Scheduling adds events**, under the next numbers. -/
theorem scheduleAll_spec (h : q.IsNumbered) (added : List (Timestamp × Event)) :
    (q.scheduleAll added).IsNumbered ∧
      (q.scheduleAll added).nextSeq = q.nextSeq + added.length ∧
      (q.scheduleAll added).entries.Perm (q.entries ++ numbered q.nextSeq added) := by
  induction added generalizing q with
  | nil => exact ⟨h, rfl, by simp [scheduleAll, numbered]⟩
  | cons x added ih =>
    obtain ⟨hnumbered, hnext, hperm⟩ := ih (h.schedule x.1 x.2)
    refine ⟨hnumbered, ?_, hperm.trans ?_⟩
    · rw [List.length_cons, ← Nat.add_assoc, Nat.add_right_comm]
      exact hnext
    · exact ((perm_schedule h x.1 x.2).append_right _).trans List.perm_middle.symm

/-- What is new in a queue when events were scheduled are these events. -/
theorem filter_scheduleAll (h : q.IsNumbered) (added : List (Timestamp × Event)) :
    ((q.scheduleAll added).entries.filter (· ∉ q.entries)).Perm (numbered q.nextSeq added) := by
  obtain ⟨-, -, hperm⟩ := scheduleAll_spec h added
  have hold : q.entries.filter (· ∉ q.entries) = [] := by simp
  have hnew : (numbered q.nextSeq added).filter (· ∉ q.entries) = numbered q.nextSeq added := by
    refine List.filter_eq_self.2 fun x hx => decide_eq_true fun hmem => ?_
    exact Nat.not_lt.2 (mem_numbered hx).1 (h.below x hmem)
  have hfilter := hperm.filter fun x => x ∉ q.entries
  rwa [List.filter_append, hold, hnew, List.nil_append] at hfilter

/-! ### What waits, and until when -/

/-- The events that wait, with the times at which they are due. -/
def pending (q : EventQueue) : List (Timestamp × Event) :=
  q.entries.map fun x => (x.1.time, x.2)

theorem Pops.perm_pending (h : q.Pops moment event rest) :
    q.pending.Perm ((moment.time, event) :: rest.pending) :=
  h.perm.map _

theorem perm_pending_scheduleAll (h : q.IsNumbered) (added : List (Timestamp × Event)) :
    (q.scheduleAll added).pending.Perm (q.pending ++ added) := by
  obtain ⟨-, -, hperm⟩ := scheduleAll_spec h added
  have htimes := hperm.map fun x => (x.1.time, x.2)
  rwa [List.map_append, times_numbered] at htimes

end EventQueue

end GroupKey
