import GroupKey.GroupId
import GroupKey.Session.Phase
import Std.Data.ExtTreeMap
import Std.Data.ExtTreeSet

/-!
# Which members are alive

The coordinator keeps a record of every member it has heard from. The records are also indexed
by the time of last hearing, so that stale members are found oldest first and the most recently
heard member without a search.
-/

namespace GroupKey

/-- What the coordinator knows about a member. -/
structure MemberRecord where
  lastHeard : Timestamp
  phase : Phase
  /-- The slot it was assigned. -/
  slot : Option (GroupId × UInt32)
  /-- Whether its join for that slot was accepted. -/
  joined : Bool
  deriving DecidableEq

/-- When a member was last heard; ordered by time, then by number. -/
structure Heard where
  time : Timestamp
  pid : UInt32
  deriving DecidableEq

namespace Heard

instance : Ord Heard := ⟨compareLex (compareOn time) (compareOn pid)⟩

instance : Std.TransOrd Heard :=
  inferInstanceAs (Std.TransCmp (compareLex (compareOn time) (compareOn pid)))

instance : Std.LawfulEqOrd Heard where
  eq_of_compare {a b} h := by
    obtain ⟨timeA, pidA⟩ := a
    obtain ⟨timeB, pidB⟩ := b
    change compareLex (compareOn time) (compareOn pid) _ _ = .eq at h
    simp only [compareLex_eq_eq, compareOn, Std.LawfulEqOrd.compare_eq_iff_eq] at h
    simp [h]

end Heard

/-- The records of the members heard from, with their order in time. -/
structure Liveness where
  records : Std.ExtTreeMap UInt32 MemberRecord
  timeline : Std.ExtTreeSet Heard

namespace Liveness

/-- No member was heard from. -/
def empty : Liveness := ⟨∅, ∅⟩

/-- The number of records. -/
def size (l : Liveness) : Nat := l.records.size

/-- The record of a member. -/
def get? (l : Liveness) (pid : UInt32) : Option MemberRecord := l.records[pid]?

/-- Notes that a member was heard at `now` in the given phase, keeping the rest of its record. -/
def touch (l : Liveness) (pid : UInt32) (now : Timestamp) (phase : Phase) : Liveness :=
  let record := (l.get? pid).getD ⟨now, phase, none, false⟩
  { records := l.records.insert pid { record with lastHeard := now, phase }
    timeline := (l.timeline.erase ⟨record.lastHeard, pid⟩).insert ⟨now, pid⟩ }

/-- Sets the slot and the acceptance of a member's record, if there is one. -/
def assign (l : Liveness) (pid : UInt32) (slot : Option (GroupId × UInt32)) (joined : Bool) :
    Liveness :=
  { l with records := l.records.modify pid fun record => { record with slot, joined } }

/-- Forgets a member. -/
def remove (l : Liveness) (pid : UInt32) : Liveness :=
  match l.get? pid with
  | none => l
  | some record => ⟨l.records.erase pid, l.timeline.erase ⟨record.lastHeard, pid⟩⟩

/-- Whether a member last heard at `heard` is stale at `now`. -/
def IsStale (now : Timestamp) (timeout : Duration) (heard : Heard) : Prop :=
  timeout < now.since heard.time

instance (now : Timestamp) (timeout : Duration) (heard : Heard) :
    Decidable (IsStale now timeout heard) := inferInstanceAs (Decidable (_ < _))

/-- Forgets every stale member and lists them, oldest first. -/
def evictStale (l : Liveness) (now : Timestamp) (timeout : Duration) : List UInt32 × Liveness :=
  let stale := l.timeline.toList.takeWhile fun heard => IsStale now timeout heard
  (stale.map (·.pid),
    { records := stale.foldl (fun records heard => records.erase heard.pid) l.records
      timeline := stale.foldl (fun timeline heard => timeline.erase heard) l.timeline })

/-- The most recently heard member whose record satisfies `pred`. -/
def mostRecent? (l : Liveness) (pred : MemberRecord → Bool) : Option UInt32 :=
  (l.timeline.toList.reverse.find? fun heard => (l.get? heard.pid).any pred).map (·.pid)

end Liveness

end GroupKey
