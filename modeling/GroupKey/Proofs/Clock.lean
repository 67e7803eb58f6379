import GroupKey.Clock
import Mathlib.Algebra.Order.Ring.Nat
import Mathlib.Data.List.Basic
import Mathlib.Data.List.Induction

/-!
# The hand of a clock that is advanced

An advance moves the hand of a clock by the whole microseconds of a span, at most by the greatest
word, and past the greatest word the hand begins again at zero. A timestamp to which the span is
added stops there instead. Both are told by the way of the hand, how far it would have come if it
never began again: the clock shows what is left of this way after full turns, the timestamp as much
of it as fits the word. Each turn takes the clock back, and the two agree throughout only if there
is none.

* `wayFrom` — the way of the hand.
* `toNat_advanceAll`, `toNat_addAll` — what a clock and a timestamp make of the same way.
* `agrees_iff`, `agrees_all_iff` — when they agree in the end, and when throughout.
* `advance_lt_iff`, `advance_too_long` — when an advance takes the clock back.
* `Call`, `run` — what is done to a bank of clocks, and the bank after it.
* `getElem?_clocks_run` — a clock follows the advances through all its faces, and no others.
* `setbacks_eq` — a face goes back once with each turn of its clock.
* `reading_of_advances` — what the faces of a clock show, and how often they go back.
* `clock_goes_back` — a clock that is advanced past the greatest word.
-/

namespace GroupKey

namespace Clock

variable {c : Clock} {t : Timestamp} {d : Duration} {ds : List Duration}

/-! ## The way of the hand -/

/-- How far an advance by a span moves the hand, in microseconds. -/
def stride (d : Duration) : Nat := min d.micros Timestamp.lastMicros

/-- How far from the epoch the hand comes if it starts at a time, is advanced by spans and never
begins again. -/
def wayFrom (t : Timestamp) (ds : List Duration) : Nat := t.micros.toNat + (ds.map stride).sum

theorem stride_lt (d : Duration) : stride d < UInt64.size :=
  Nat.lt_of_le_of_lt (Nat.min_le_right _ _) (by decide)

theorem wayFrom_concat (t : Timestamp) (ds : List Duration) (d : Duration) :
    wayFrom t (ds ++ [d]) = wayFrom t ds + stride d := by
  simp [wayFrom, Nat.add_assoc]

/-- **An advance adds to the word**, and what does not fit is lost. -/
theorem toNat_advance (c : Clock) (d : Duration) :
    (c.advance d).now.micros.toNat = (c.now.micros.toNat + stride d) % UInt64.size := by
  have hstride : (UInt64.ofNat (stride d)).toNat = stride d :=
    UInt64.toNat_ofNat_of_lt' (stride_lt d)
  rw [advance, UInt64.toNat_add, ← stride, hstride]

theorem toNat_advance_of_lt (hroom : c.now.micros.toNat + stride d < UInt64.size) :
    (c.advance d).now.micros.toNat = c.now.micros.toNat + stride d := by
  rw [toNat_advance, Nat.mod_eq_of_lt hroom]

/-- An advance for which it has no room makes a full turn. -/
theorem toNat_advance_of_le (hfull : UInt64.size ≤ c.now.micros.toNat + stride d) :
    (c.advance d).now.micros.toNat + UInt64.size = c.now.micros.toNat + stride d := by
  have hstride := stride_lt d
  have hnow := c.now.micros.toNat_lt_size
  rw [toNat_advance, Nat.mod_eq_sub_mod hfull, Nat.mod_eq_of_lt (by omega),
    Nat.sub_add_cancel hfull]

/-- A clock shows what is left of its way after full turns. -/
theorem toNat_advanceAll (t : Timestamp) (ds : List Duration) :
    (ds.foldl advance ⟨t⟩).now.micros.toNat = wayFrom t ds % UInt64.size := by
  induction ds using List.reverseRecOn with
  | nil => exact (Nat.mod_eq_of_lt t.micros.toNat_lt_size).symm
  | append_singleton ds d ih =>
    rw [List.foldl_concat, toNat_advance, ih, Nat.mod_add_mod, wayFrom_concat]

theorem toNat_addAll (t : Timestamp) (ds : List Duration) :
    (ds.foldl (· + ·) t).micros.toNat = min (wayFrom t ds) Timestamp.lastMicros := by
  induction ds using List.reverseRecOn with
  | nil => exact (Nat.min_eq_left (Nat.le_of_lt_succ t.micros.toNat_lt_size)).symm
  | append_singleton ds d ih =>
    have hstride : stride d = min d.micros Timestamp.lastMicros := rfl
    rw [List.foldl_concat, Timestamp.toNat_add, ih, wayFrom_concat]
    omega

/-! ## The clock and the sum -/

/-- A clock that is advanced by spans shows the sum that timestamps have. -/
def Agrees (t : Timestamp) (ds : List Duration) : Prop :=
  (ds.foldl advance ⟨t⟩).now = ds.foldl (· + ·) t

/-- **The clock shows the sum** if it has made no turn, and else only when it shows the greatest
word. -/
theorem agrees_iff : Agrees t ds ↔
    wayFrom t ds < UInt64.size ∨ wayFrom t ds % UInt64.size = Timestamp.lastMicros := by
  have hsize : UInt64.size = 18446744073709551616 := rfl
  have hlast : Timestamp.lastMicros = 18446744073709551615 := rfl
  have hword : Agrees t ds ↔
      (ds.foldl advance ⟨t⟩).now.micros.toNat = (ds.foldl (· + ·) t).micros.toNat := by
    constructor
    · intro h
      rw [h]
    · intro h
      exact Timestamp.le_antisymm (Timestamp.le_iff.2 (Nat.le_of_eq h))
        (Timestamp.le_iff.2 (Nat.le_of_eq h.symm))
  rw [hword, toNat_advanceAll, toNat_addAll, hsize, hlast]
  omega

/-- **The clock shows the sum throughout** only if it makes no turn at all. -/
theorem agrees_all_iff :
    (∀ ds', ds' <+: ds → Agrees t ds') ↔ wayFrom t ds < UInt64.size := by
  induction ds using List.reverseRecOn with
  | nil =>
    refine ⟨fun _ => t.micros.toNat_lt_size, fun _ ds' hds' => ?_⟩
    rw [List.prefix_nil.1 hds']
    exact rfl
  | append_singleton ds d ih =>
    have hstride := stride_lt d
    constructor
    · intro h
      have hbefore := ih.1 fun ds' hds' => h ds' (hds'.trans (List.prefix_append _ _))
      -- The first turn leaves less than the greatest word, since no stride is longer than that.
      rcases agrees_iff.1 (h _ List.prefix_rfl) with hfits | hlast
      · exact hfits
      · have hsize : UInt64.size = 18446744073709551616 := rfl
        have hword : Timestamp.lastMicros = 18446744073709551615 := rfl
        rw [hsize] at hbefore hstride
        rw [wayFrom_concat, hsize, hword] at hlast
        rw [wayFrom_concat, hsize]
        omega
    · intro hway ds' hds'
      rcases List.prefix_concat_iff.1 hds' with rfl | hds'
      · exact agrees_iff.2 (.inl hway)
      · rw [wayFrom_concat] at hway
        exact ih.2 (by omega) ds' hds'

/-! ## Setbacks -/

/-- **An advance takes the clock back** just if the word has no room for it. -/
theorem advance_lt_iff :
    (c.advance d).now < c.now ↔ UInt64.size ≤ c.now.micros.toNat + stride d := by
  have hword : (c.advance d).now < c.now ↔
      (c.advance d).now.micros.toNat < c.now.micros.toNat := UInt64.lt_iff_toNat_lt
  rw [hword]
  rcases Nat.lt_or_ge (c.now.micros.toNat + stride d) UInt64.size with hroom | hfull
  · have hadds := toNat_advance_of_lt hroom
    omega
  · have hturns := toNat_advance_of_le hfull
    have hstride := stride_lt d
    omega

/-- **The turns of a way** are that of its first advance, if this goes back, and those of the
rest. -/
theorem wayFrom_cons_div (t : Timestamp) (d : Duration) (ds : List Duration) :
    wayFrom t (d :: ds) / UInt64.size =
      (decide ((advance ⟨t⟩ d).now < t)).toNat +
        wayFrom (advance ⟨t⟩ d).now ds / UInt64.size := by
  have hback : (advance ⟨t⟩ d).now < t ↔ UInt64.size ≤ t.micros.toNat + stride d := advance_lt_iff
  rcases Nat.lt_or_ge (t.micros.toNat + stride d) UInt64.size with hroom | hfull
  · have hway : wayFrom t (d :: ds) = wayFrom (advance ⟨t⟩ d).now ds := by
      rw [wayFrom, wayFrom, toNat_advance_of_lt hroom, List.map_cons, List.sum_cons,
        Nat.add_assoc]
    rw [hway, decide_eq_false (mt hback.1 (Nat.not_le.2 hroom)), Bool.toNat_false, Nat.zero_add]
  · have hway : wayFrom t (d :: ds) = wayFrom (advance ⟨t⟩ d).now ds + UInt64.size := by
      have hturns : (advance ⟨t⟩ d).now.micros.toNat + UInt64.size = t.micros.toNat + stride d :=
        toNat_advance_of_le hfull
      rw [wayFrom, wayFrom, List.map_cons, List.sum_cons]
      omega
    rw [hway, Nat.add_div_right _ (by decide), decide_eq_true (hback.2 hfull), Bool.toNat_true,
      Nat.add_comm]

/-- A span that is too long for a word takes the clock back by one microsecond. -/
theorem advance_too_long (hd : Timestamp.lastMicros ≤ d.micros) (hnow : 0 < c.now.micros.toNat) :
    (c.advance d).now.micros.toNat + 1 = c.now.micros.toNat := by
  have hlast : Timestamp.lastMicros + 1 = UInt64.size := rfl
  have hstride : stride d = Timestamp.lastMicros := Nat.min_eq_right hd
  have hturns := toNat_advance_of_le (c := c) (d := d) (by omega)
  omega

end Clock

namespace ClockBank

open Clock

variable {b : ClockBank} {face clock : Nat} {c : Clock} {t : Timestamp}

/-! ## Banks of clocks -/

/-- What is done to a bank of clocks while none is set. -/
inductive Call where
  /-- A clock is added, with its first face. -/
  | start (c : Clock)
  /-- Another face is added to the clock that a face shows. -/
  | copy (face : Nat)
  /-- The clock that a face shows is advanced. -/
  | advance (face : Nat) (d : Duration)

/-- The bank after a call. -/
def apply (b : ClockBank) : Call → ClockBank
  | .start c => b.start c
  | .copy face => b.copy face
  | .advance face d => b.advance face d

/-- The bank after calls. -/
def run (b : ClockBank) (calls : List Call) : ClockBank := calls.foldl apply b

/-- The span by which a call advances a clock, through whichever of its faces. -/
def span? (b : ClockBank) (clock : Nat) : Call → Option Duration
  | .advance face d => if b.faces[face]? = some clock then some d else none
  | _ => none

/-- The spans by which calls advance a clock. -/
def spans (b : ClockBank) (clock : Nat) : List Call → List Duration
  | [] => []
  | call :: calls => (b.span? clock call).toList ++ (b.apply call).spans clock calls

/-- A face shows an earlier time after a call than before it. -/
def goesBack (b : ClockBank) (face : Nat) (call : Call) : Bool :=
  match b.now? face, (b.apply call).now? face with
  | some before, some after => decide (after < before)
  | _, _ => false

/-- How often the time that a face shows goes back. -/
def setbacks (b : ClockBank) (face : Nat) : List Call → Nat
  | [] => 0
  | call :: calls => (b.goesBack face call).toNat + (b.apply call).setbacks face calls

theorem now?_of_shown (hface : b.faces[face]? = some clock) (hclock : b.clocks[clock]? = some c) :
    b.now? face = some c.now := by
  simp [now?, hface, hclock]

theorem getElem?_faces_apply (hface : b.faces[face]? = some clock) (call : Call) :
    (b.apply call).faces[face]? = some clock := by
  obtain ⟨hlt, -⟩ := List.getElem?_eq_some_iff.1 hface
  cases call with
  | start c => exact (List.getElem?_append_left hlt).trans hface
  | copy face' => exact (List.getElem?_append_left hlt).trans hface
  | advance face' d =>
    rw [apply, ClockBank.advance, update]
    split <;> exact hface

/-- **A call moves a clock by its span**, if it has one for it, and not at all otherwise. -/
theorem getElem?_clocks_apply (hclock : b.clocks[clock]? = some c) (call : Call) :
    (b.apply call).clocks[clock]? =
      some ((b.span? clock call).toList.foldl Clock.advance c) := by
  cases call with
  | start c' =>
    obtain ⟨hlt, -⟩ := List.getElem?_eq_some_iff.1 hclock
    exact (List.getElem?_append_left hlt).trans hclock
  | copy face' => exact hclock
  | advance face' d =>
    rw [apply, ClockBank.advance, update, span?]
    cases hface : b.faces[face']? with
    | none => simpa using hclock
    | some clock' =>
      by_cases heq : clock' = clock
      · simp [heq, hclock]
      · simp [heq, hclock]

/-- **A clock follows the advances through all its faces**, and no others. -/
theorem getElem?_clocks_run (hclock : b.clocks[clock]? = some c) (calls : List Call) :
    (b.run calls).clocks[clock]? = some ((b.spans clock calls).foldl Clock.advance c) := by
  induction calls generalizing b c with
  | nil => exact hclock
  | cons call calls ih =>
    rw [spans, List.foldl_append]
    exact ih (getElem?_clocks_apply hclock call)

/-- **A face goes back once with each turn of its clock.** -/
theorem setbacks_eq (hface : b.faces[face]? = some clock) (hclock : b.clocks[clock]? = some ⟨t⟩)
    (calls : List Call) :
    b.setbacks face calls = wayFrom t (b.spans clock calls) / UInt64.size := by
  induction calls generalizing b t with
  | nil => exact (Nat.div_eq_of_lt t.micros.toNat_lt_size).symm
  | cons call calls ih =>
    have hface' := getElem?_faces_apply hface call
    have hclock' := getElem?_clocks_apply hclock call
    have hback : b.goesBack face call =
        decide (((b.span? clock call).toList.foldl Clock.advance ⟨t⟩).now < t) := by
      rw [goesBack, now?_of_shown hface hclock, now?_of_shown hface' hclock']
    rw [setbacks, spans, hback, ih hface' hclock']
    cases b.span? clock call with
    | none =>
      have hsame : ¬ t < t := UInt64.lt_irrefl _
      rw [Option.toList_none, List.foldl_nil, List.nil_append, decide_eq_false hsame,
        Bool.toNat_false, Nat.zero_add]
    | some d => exact (wayFrom_cons_div t d _).symm

/-- **What the faces of a clock show** after any calls that set no clock. All show the same, those
that were added meanwhile as well: what is left of the way of the hand after full turns. This is the
sum that timestamps have if the clock has made no turn, and else only when it shows the greatest
word. It is the sum throughout if and only if the clock makes no turn, and a face goes back once
with each turn. -/
theorem reading_of_advances (hclock : b.clocks[clock]? = some ⟨t⟩) (calls : List Call) :
    let spans := b.spans clock calls
    let now := (spans.foldl Clock.advance ⟨t⟩).now
    (∀ face, (b.run calls).faces[face]? = some clock → (b.run calls).now? face = some now) ∧
      now.micros.toNat = wayFrom t spans % UInt64.size ∧
      (now = spans.foldl (· + ·) t ↔
        wayFrom t spans < UInt64.size ∨
          wayFrom t spans % UInt64.size = Timestamp.lastMicros) ∧
      ((∀ past, past <+: spans → Agrees t past) ↔ wayFrom t spans < UInt64.size) ∧
      ∀ face, b.faces[face]? = some clock →
        b.setbacks face calls = wayFrom t spans / UInt64.size := by
  intro spans now
  refine ⟨fun face hface => ?_, toNat_advanceAll t spans, agrees_iff, agrees_all_iff,
    fun face hface => setbacks_eq hface hclock calls⟩
  exact now?_of_shown hface (getElem?_clocks_run hclock calls)

/-- A clock that shows ten milliseconds, with two faces, and another one. -/
def sampleBank : ClockBank := ((empty.start ⟨.ofMillis 10⟩).copy 0).start .new

/-- Advanced through both faces, it shows the sum on both, and does not go back. -/
theorem reading_of_advances_two_faces :
    let calls := [.advance 1 (.ofMillis 5), .advance 2 (.ofMillis 7), .advance 0 ⟨2999⟩]
    sampleBank.clocks[0]? = some ⟨.ofMillis 10⟩ ∧
      (sampleBank.run calls).now? 0 = some ⟨15002⟩ ∧
      (sampleBank.run calls).now? 1 = some ⟨15002⟩ ∧
      Agrees (.ofMillis 10) (sampleBank.spans 0 calls) ∧
      sampleBank.setbacks 0 calls = 0 := by
  intro calls
  have hclock : sampleBank.clocks[0]? = some ⟨.ofMillis 10⟩ := rfl
  obtain ⟨hshown, -, hsum, -, hback⟩ := reading_of_advances hclock calls
  have hway : wayFrom (.ofMillis 10) (sampleBank.spans 0 calls) = 15002 := by decide
  rw [hway] at hsum hback
  exact ⟨hclock, hshown 0 rfl, hshown 1 rfl, hsum.2 (.inl (by decide)), hback 0 rfl⟩

/-- **A clock that is advanced past the greatest word goes back.** It shows six microseconds before
the end of the word and is advanced by ten through its second face. -/
theorem clock_goes_back :
    let t : Timestamp := ⟨18446744073709551610⟩
    let b := (empty.start ⟨t⟩).copy 0
    (b.run [.advance 1 (.ofMicros 10)]).now? 0 = some ⟨4⟩ ∧
      b.now? 0 = some t ∧ t + Duration.ofMicros 10 = ⟨18446744073709551615⟩ ∧
      b.goesBack 0 (.advance 1 (.ofMicros 10)) = true := by
  decide

end ClockBank

end GroupKey
