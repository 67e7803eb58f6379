import GroupKey.Proofs.Maps
import GroupKey.Session.Liveness

/-!
# The records of members and the timeline agree

The records of the members are indexed by the time at which each was heard last. Every operation
writes both the records and the index, and they stay in step. That is why the members evicted from
the old end of the timeline are just those that are stale, and why the first suitable one from its
other end is the one heard most recently of all.

* `Liveness.IsIndexed` — the timeline lists each record once, under its own time.
* `IsIndexed.touch`, `IsIndexed.assign`, `IsIndexed.remove`, `IsIndexed.evictStale` — every
  operation keeps it.
* `IsIndexed.get?_evictStale` — what is left of the records when the stale ones go.
* `IsIndexed.isMostRecent`, `IsIndexed.unfit_of_mostRecent?` — whom the search finds.
-/

namespace GroupKey

/-! ## The order of the timeline -/

/-- If what holds of an element of a list holds of those before it, then all of which it holds stand
at the front. -/
theorem takeWhile_eq_filter {α : Type} {p : α → Bool} {l : List α}
    (h : l.Pairwise fun a b => p b = true → p a = true) : l.takeWhile p = l.filter p := by
  induction l with
  | nil => rfl
  | cons a l ih =>
    obtain ⟨hfirst, hrest⟩ := List.pairwise_cons.1 h
    cases ha : p a with
    | true => rw [List.takeWhile_cons_of_pos ha, List.filter_cons_of_pos ha, ih hrest]
    | false =>
      have hnone : l.filter p = [] := by
        refine List.filter_eq_nil_iff.2 fun b hb hpb => ?_
        simp [hfirst b hb hpb] at ha
      rw [List.takeWhile_cons_of_neg (by simp [ha]), List.filter_cons_of_neg (by simp [ha]), hnone]

theorem Timestamp.lt_of_compare {a b : Timestamp} (h : compare a b = .lt) : a < b := by
  change compareOfLessAndEq a.micros b.micros = .lt at h
  exact compareOfLessAndEq_eq_lt (x := a.micros).1 h

namespace Heard

/-- The first member was heard before the second, or at the same time and has no greater number. -/
def NotAfter (a b : Heard) : Prop := a.time < b.time ∨ a.time = b.time ∧ a.pid ≤ b.pid

theorem NotAfter.refl (a : Heard) : a.NotAfter a := .inr ⟨rfl, UInt32.le_refl _⟩

theorem NotAfter.time_le {a b : Heard} (h : a.NotAfter b) : a.time ≤ b.time := by
  rcases h with hlt | ⟨heq, -⟩
  · exact UInt64.le_of_lt hlt
  · exact heq ▸ Timestamp.le_refl _

theorem NotAfter.antisymm {a b : Heard} (h : a.NotAfter b) (h' : b.NotAfter a) : a = b := by
  have htime : a.time = b.time := Timestamp.le_antisymm h.time_le h'.time_le
  rcases h with hlt | ⟨-, hpid⟩
  · exact absurd (htime ▸ hlt) (UInt64.lt_irrefl _)
  rcases h' with hlt | ⟨-, hpid'⟩
  · exact absurd (htime ▸ hlt) (UInt64.lt_irrefl _)
  cases a
  cases b
  exact congrArg₂ mk htime (UInt32.le_antisymm hpid hpid')

/-- The first member was heard before the second, or at the same time and has the smaller number. -/
def Precedes (a b : Heard) : Prop := a.time < b.time ∨ a.time = b.time ∧ a.pid < b.pid

theorem Precedes.notAfter {a b : Heard} (h : a.Precedes b) : a.NotAfter b :=
  h.imp_right fun ⟨htime, hpid⟩ => ⟨htime, UInt32.le_of_lt hpid⟩

theorem Precedes.ne {a b : Heard} (h : a.Precedes b) : a ≠ b := by
  rintro rfl
  rcases h with hlt | ⟨-, hpid⟩
  · exact UInt64.lt_irrefl _ hlt
  · exact UInt32.lt_irrefl _ hpid

theorem precedes_of_compare {a b : Heard} (h : compare a b = .lt) : a.Precedes b := by
  change (compare a.time b.time).then (compare a.pid b.pid) = .lt at h
  rcases Ordering.then_eq_lt.1 h with htime | ⟨htime, hpid⟩
  · exact .inl (Timestamp.lt_of_compare htime)
  · change compareOfLessAndEq a.pid b.pid = .lt at hpid
    exact .inr ⟨Std.LawfulEqOrd.eq_of_compare htime, compareOfLessAndEq_eq_lt.1 hpid⟩

theorem notAfter_of_compare {a b : Heard} (h : compare a b = .lt) : a.NotAfter b :=
  (precedes_of_compare h).notAfter

end Heard

namespace Liveness

variable {l : Liveness} {now : Timestamp} {timeout : Duration} {pid : UInt32}

theorem IsStale.mono {a b : Heard} (h : IsStale now timeout b) (hab : a.time ≤ b.time) :
    IsStale now timeout a := by
  have hsilent : timeout.nanos < (now.since b.time).nanos := h
  have hlonger : (now.since b.time).nanos ≤ (now.since a.time).nanos := by
    rw [Timestamp.le_iff] at hab
    simp only [Timestamp.since, Duration.ofMicros]
    omega
  exact hsilent.trans_le hlonger

/-! ## Lookups -/

theorem get?_touch (l : Liveness) (pid q : UInt32) (now : Timestamp) (phase : Phase) :
    (l.touch pid now phase).get? q =
      if pid = q then
        some { (l.get? pid).getD ⟨now, phase, none, false⟩ with lastHeard := now, phase }
      else l.get? q := by
  unfold touch get?
  by_cases h : pid = q
  · subst h
    rw [Std.ExtTreeMap.getElem?_insert_self, if_pos rfl]
  · rw [getElem?_insert_of_ne h, if_neg h]

theorem get?_assign (l : Liveness) (pid q : UInt32) (slot : Option (GroupId × UInt32))
    (joined : Bool) :
    (l.assign pid slot joined).get? q =
      if pid = q then (l.get? pid).map fun record => { record with slot, joined }
      else l.get? q := by
  unfold assign get?
  rw [Std.ExtTreeMap.getElem?_modify]
  by_cases h : pid = q
  · subst h
    simp
  · simp [h]

theorem get?_remove (l : Liveness) (pid q : UInt32) :
    (l.remove pid).get? q = if pid = q then none else l.get? q := by
  unfold remove
  split
  · next hnone =>
    split
    · next heq => rw [← heq, hnone]
    · rfl
  · rw [get?, Std.ExtTreeMap.getElem?_erase]
    simp [get?]

theorem getElem?_foldl_erase (stale : List Heard) (records : Std.ExtTreeMap UInt32 MemberRecord)
    (pid : UInt32) :
    (stale.foldl (fun records heard => records.erase heard.pid) records)[pid]? =
      if pid ∈ stale.map (·.pid) then none else records[pid]? := by
  induction stale generalizing records with
  | nil => simp
  | cons heard stale ih =>
    rw [List.foldl_cons, ih, Std.ExtTreeMap.getElem?_erase]
    by_cases heq : heard.pid = pid
    · simp [heq]
    · simp [heq, Ne.symm heq]

theorem mem_erase {timeline : Std.ExtTreeSet Heard} {first heard : Heard} :
    heard ∈ timeline.erase first ↔ first ≠ heard ∧ heard ∈ timeline := by
  rw [Std.ExtTreeSet.mem_erase, Ne, Std.LawfulEqOrd.compare_eq_iff_eq]

theorem mem_foldl_erase (stale : List Heard) (timeline : Std.ExtTreeSet Heard) (heard : Heard) :
    heard ∈ stale.foldl (fun timeline heard => timeline.erase heard) timeline ↔
      heard ∈ timeline ∧ heard ∉ stale := by
  induction stale generalizing timeline with
  | nil => simp
  | cons first stale ih =>
    rw [List.foldl_cons, ih, mem_erase, List.mem_cons, not_or, eq_comm (a := heard)]
    exact ⟨fun ⟨⟨hne, hmem⟩, hstale⟩ => ⟨hmem, hne, hstale⟩,
      fun ⟨hmem, hne, hstale⟩ => ⟨⟨hne, hmem⟩, hstale⟩⟩

/-! ## The index -/

/-- The timeline lists each member once, under the time at which it was heard last. -/
def IsIndexed (l : Liveness) : Prop :=
  ∀ heard, heard ∈ l.timeline ↔
    ∃ record, l.get? heard.pid = some record ∧ record.lastHeard = heard.time

theorem isIndexed_empty : IsIndexed .empty := by
  intro heard
  simp [empty, get?]

theorem IsIndexed.touch (h : l.IsIndexed) (pid : UInt32) (now : Timestamp) (phase : Phase) :
    (l.touch pid now phase).IsIndexed := by
  rintro ⟨time, q⟩
  rw [get?_touch]
  simp only [Liveness.touch, Std.ExtTreeSet.mem_insert, mem_erase, ne_eq,
    Std.LawfulEqOrd.compare_eq_iff_eq, Heard.mk.injEq]
  by_cases hpid : pid = q
  · subst hpid
    -- The time under which the member was listed before is the only other one.
    have hold : ⟨time, pid⟩ ∈ l.timeline →
        ((l.get? pid).getD ⟨now, phase, none, false⟩).lastHeard = time := by
      intro hlisted
      obtain ⟨record, hrecord, hheard⟩ := (h ⟨time, pid⟩).1 hlisted
      rw [hrecord]
      exact hheard
    simp only [and_true, if_true, Option.some.injEq, exists_eq_left']
    exact ⟨fun hlisted => hlisted.resolve_right fun hkept => hkept.1 (hold hkept.2), .inl⟩
  · simp only [hpid, and_false, not_false_eq_true, true_and, false_or, if_false]
    exact h ⟨time, q⟩

theorem IsIndexed.assign (h : l.IsIndexed) (pid : UInt32) (slot : Option (GroupId × UInt32))
    (joined : Bool) : (l.assign pid slot joined).IsIndexed := by
  intro heard
  rw [get?_assign]
  refine (h heard).trans ?_
  split
  · next hpid => simp [hpid]
  · rfl

theorem IsIndexed.remove (h : l.IsIndexed) (pid : UInt32) : (l.remove pid).IsIndexed := by
  intro heard
  rw [get?_remove]
  by_cases hpid : pid = heard.pid
  · subst hpid
    rw [if_pos rfl]
    refine iff_of_false ?_ (by simp)
    unfold Liveness.remove
    split
    · next hnone =>
      intro hlisted
      obtain ⟨record, hrecord, -⟩ := (h heard).1 hlisted
      simp [hnone] at hrecord
    · next record hrecord =>
      intro hlisted
      obtain ⟨hne, hlisted⟩ := mem_erase.1 hlisted
      obtain ⟨record', hrecord', htime⟩ := (h heard).1 hlisted
      obtain rfl := Option.some.inj (hrecord.symm.trans hrecord')
      exact hne (congrArg (Heard.mk · heard.pid) htime)
  · rw [if_neg hpid, ← h heard]
    unfold Liveness.remove
    split
    · rfl
    · rw [mem_erase]
      refine and_iff_right fun heq => hpid ?_
      rw [← heq]

/-! ## Stale members -/

/-- The stale members of the timeline, oldest first. -/
def stale (l : Liveness) (now : Timestamp) (timeout : Duration) : List Heard :=
  l.timeline.toList.takeWhile fun heard => IsStale now timeout heard

/-- All stale members stand at the old end of the timeline. -/
theorem mem_stale {heard : Heard} :
    heard ∈ l.stale now timeout ↔ heard ∈ l.timeline ∧ IsStale now timeout heard := by
  have hordered : l.timeline.toList.Pairwise fun a b =>
      decide (IsStale now timeout b) = true → decide (IsStale now timeout a) = true := by
    refine l.timeline.ordered_toList.imp fun hlt hstale => ?_
    have hbefore := (Heard.notAfter_of_compare hlt).time_le
    exact decide_eq_true ((of_decide_eq_true hstale).mono hbefore)
  rw [stale, takeWhile_eq_filter hordered, List.mem_filter, Std.ExtTreeSet.mem_toList,
    decide_eq_true_eq]

theorem IsIndexed.mem_evicted (h : l.IsIndexed) :
    pid ∈ (l.evictStale now timeout).1 ↔
      ∃ record, l.get? pid = some record ∧ IsStale now timeout ⟨record.lastHeard, pid⟩ := by
  show pid ∈ (l.stale now timeout).map (·.pid) ↔ _
  rw [List.mem_map]
  constructor
  · rintro ⟨⟨time, q⟩, hstale, rfl⟩
    obtain ⟨hlisted, hsilent⟩ := mem_stale.1 hstale
    obtain ⟨record, hrecord, rfl⟩ := (h _).1 hlisted
    exact ⟨record, hrecord, hsilent⟩
  · rintro ⟨record, hrecord, hsilent⟩
    exact ⟨⟨record.lastHeard, pid⟩, mem_stale.2 ⟨(h _).2 ⟨record, hrecord, rfl⟩, hsilent⟩, rfl⟩

/-- **The records that are left are those that are not stale.** -/
theorem IsIndexed.get?_evictStale (h : l.IsIndexed) {record : MemberRecord} :
    (l.evictStale now timeout).2.get? pid = some record ↔
      l.get? pid = some record ∧ ¬IsStale now timeout ⟨record.lastHeard, pid⟩ := by
  have hevicted : pid ∈ (l.evictStale now timeout).1 ↔ _ := h.mem_evicted
  have hleft : (l.evictStale now timeout).2.get? pid =
      if pid ∈ (l.evictStale now timeout).1 then none else l.get? pid :=
    getElem?_foldl_erase _ _ _
  rw [hleft]
  split
  · next hgone =>
    obtain ⟨record', hrecord', hsilent⟩ := hevicted.1 hgone
    refine iff_of_false (by simp) ?_
    rintro ⟨hrecord, hlive⟩
    obtain rfl := Option.some.inj (hrecord'.symm.trans hrecord)
    exact hlive hsilent
  · next hkept =>
    refine ⟨fun hrecord => ⟨hrecord, fun hsilent => ?_⟩, And.left⟩
    exact hkept (hevicted.2 ⟨record, hrecord, hsilent⟩)

theorem IsIndexed.evictStale (h : l.IsIndexed) (now : Timestamp) (timeout : Duration) :
    (l.evictStale now timeout).2.IsIndexed := by
  intro heard
  have hlisted : heard ∈ (l.evictStale now timeout).2.timeline ↔
      heard ∈ l.timeline ∧ heard ∉ l.stale now timeout := mem_foldl_erase _ _ _
  rw [hlisted, mem_stale, h heard]
  simp only [h.get?_evictStale]
  constructor
  · rintro ⟨⟨record, hrecord, htime⟩, hlive⟩
    refine ⟨record, ⟨hrecord, fun hsilent => hlive ⟨⟨record, hrecord, htime⟩, ?_⟩⟩, htime⟩
    rwa [htime] at hsilent
  · rintro ⟨record, ⟨hrecord, hlive⟩, htime⟩
    refine ⟨⟨record, hrecord, htime⟩, fun hstale => hlive ?_⟩
    rw [htime]
    exact hstale.2

/-! ## The most recent member -/

section Search

variable {pred : MemberRecord → Bool}

/-- The member is suitable, and no suitable one was heard after it. -/
structure IsMostRecent (l : Liveness) (pred : MemberRecord → Bool) (pid : UInt32)
    (record : MemberRecord) : Prop where
  get : l.get? pid = some record
  suits : pred record = true
  latest : ∀ q other, l.get? q = some other → pred other = true →
    Heard.NotAfter ⟨other.lastHeard, q⟩ ⟨record.lastHeard, pid⟩

/-- **The search finds the most recent member.** -/
theorem IsIndexed.isMostRecent (h : l.IsIndexed) (hfound : l.mostRecent? pred = some pid) :
    ∃ record, l.IsMostRecent pred pid record := by
  obtain ⟨⟨time, pid⟩, hheard, rfl⟩ := Option.map_eq_some_iff.1 hfound
  obtain ⟨hsuits, later, earlier, hsplit, hlater⟩ := List.find?_eq_some_iff_append.1 hheard
  obtain ⟨record, hrecord, hpred⟩ := (Option.any_eq_true _ _).1 hsuits
  have hlisted (heard : Heard) : heard ∈ l.timeline ↔ heard ∈ later ++ ⟨time, pid⟩ :: earlier := by
    rw [← hsplit, List.mem_reverse, Std.ExtTreeSet.mem_toList]
  obtain ⟨record', hrecord', htime⟩ := (h ⟨time, pid⟩).1 ((hlisted _).2 (by simp))
  obtain rfl := Option.some.inj (hrecord.symm.trans hrecord')
  -- The timeline is searched backwards.
  have hordered : (later ++ ⟨time, pid⟩ :: earlier).Pairwise fun a b => compare b a = .lt := by
    rw [← hsplit, List.pairwise_reverse]
    exact l.timeline.ordered_toList
  refine ⟨record, hrecord, hpred, fun q other hother hsuits => ?_⟩
  have hmem := (hlisted ⟨other.lastHeard, q⟩).1 ((h _).2 ⟨other, hother, rfl⟩)
  rw [htime]
  rcases List.mem_append.1 hmem with hpassed | hmem
  · have hunfit := hlater _ hpassed
    simp [hother, hsuits] at hunfit
  · rcases List.mem_cons.1 hmem with heq | hearlier
    · rw [heq]
      exact .refl _
    · have hbefore := (List.pairwise_cons.1 (List.pairwise_append.1 hordered).2.1).1 _ hearlier
      exact Heard.notAfter_of_compare hbefore

theorem IsIndexed.unfit_of_mostRecent? (h : l.IsIndexed) (hnone : l.mostRecent? pred = none)
    {record : MemberRecord} (hrecord : l.get? pid = some record) : pred record = false := by
  have hunfit := List.find?_eq_none.1 (Option.map_eq_none_iff.1 hnone)
  have hlisted : ⟨record.lastHeard, pid⟩ ∈ l.timeline.toList.reverse := by
    rw [List.mem_reverse, Std.ExtTreeSet.mem_toList]
    exact (h _).2 ⟨record, hrecord, rfl⟩
  simpa [hrecord] using hunfit _ hlisted

end Search

end Liveness

end GroupKey
