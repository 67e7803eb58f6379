import GroupKey.Node.Config
import Std.Data.ExtTreeMap

/-!
# The event queue

Events wait for their time; those due at the same time are taken in the order in which they were
scheduled.
-/

namespace GroupKey

/-- What can happen to a node. -/
inductive Event where
  | timer (node : Nat) (timer : Timer)
  | deliver (node : Nat) (frame : Bytes)
  deriving DecidableEq

/-- When an event is due, and its number in the order of scheduling. -/
structure Moment where
  time : Timestamp
  seq : Nat
  deriving DecidableEq

namespace Moment

instance : Ord Moment := ⟨compareLex (compareOn time) (compareOn seq)⟩

instance : Std.TransOrd Moment :=
  inferInstanceAs (Std.TransCmp (compareLex (compareOn time) (compareOn seq)))

instance : Std.LawfulEqOrd Moment where
  eq_of_compare {a b} h := by
    obtain ⟨timeA, seqA⟩ := a
    obtain ⟨timeB, seqB⟩ := b
    change compareLex (compareOn time) (compareOn seq) _ _ = .eq at h
    simp only [compareLex_eq_eq, compareOn, Std.LawfulEqOrd.compare_eq_iff_eq] at h
    simp [h]

end Moment

/-- The events waiting, and the number of the next one. -/
structure EventQueue where
  waiting : Std.ExtTreeMap Moment Event
  nextSeq : Nat

namespace EventQueue

/-- No event is waiting. -/
def empty : EventQueue := ⟨∅, 0⟩

/-- Adds an event. -/
def schedule (q : EventQueue) (time : Timestamp) (event : Event) : EventQueue :=
  ⟨q.waiting.insert ⟨time, q.nextSeq⟩ event, q.nextSeq + 1⟩

/-- Takes the first event if it is due by `stop`. -/
def next? (q : EventQueue) (stop : Timestamp) : Option (Moment × Event × EventQueue) :=
  match q.waiting.entryAtIdx? 0 with
  | none => none
  | some (moment, event) =>
    if moment.time ≤ stop then some (moment, event, { q with waiting := q.waiting.erase moment })
    else none

end EventQueue

end GroupKey
