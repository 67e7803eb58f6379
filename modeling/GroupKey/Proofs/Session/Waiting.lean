import GroupKey.Proofs.Session.Retention
import GroupKey.Proofs.Suite.Exponents
import Mathlib.Data.List.Flatten
import Mathlib.Data.Nat.Find

/-!
# The candidates that wait to be confirmed

Whoever offers bytes puts a candidate in the book, and nobody need ever confirm it. So only few of
them may wait. They stand in a queue, by version and then by arrival, and it is cut at its end: a
flood of offers can push out what is newer, or as new and came later, but never what is older. What
is confirmed is no part of the queue.

* `waiting` — the queue.
* `waiting_eq` — a version is one piece of it, between the lower and the higher.
* `waiting_evict` — dropping candidates cuts it at its end.
* `arrival`, `Precedes` — the order of the queue, told from the calls alone.
* `Queued`, `queued_run` — the queue is in this order after any calls.
* `first_in_order_wait` — what an offer that adopts nothing does to the candidates.
-/

namespace GroupKey

/-! ## Lists of candidates -/

namespace Candidate

/-- The candidates that wait to be confirmed. -/
def waiting (cs : List Candidate) : List Candidate := cs.filter fun c => !c.confirmed

/-- The candidates that are confirmed. -/
def settled (cs : List Candidate) : List Candidate := cs.filter (·.confirmed)

variable {digest : Digest} {f : Candidate → Candidate} {new : Candidate} {cs : List Candidate}

theorem waiting_append (cs cs' : List Candidate) :
    waiting (cs ++ cs') = waiting cs ++ waiting cs' := List.filter_append ..

theorem mem_waiting {c : Candidate} : c ∈ waiting cs ↔ c ∈ cs ∧ c.confirmed = false := by
  simp [waiting]

/-- Of the candidates that wait, the last one is dropped, and of the others none. -/
theorem filter_dropLastUnconfirmed (h : cs.any (!·.confirmed) = true) :
    waiting (dropLastUnconfirmed cs) = (waiting cs).dropLast ∧
      settled (dropLastUnconfirmed cs) = settled cs := by
  obtain ⟨before, c, after, hsplit, hc, hafter, hdrop⟩ := exists_last_unconfirmed h
  have hnone : waiting after = [] := List.filter_eq_nil_iff.2 fun x hx => by simp [hafter x hx]
  have hcons : waiting (c :: after) = [c] := by
    rw [← hnone]
    exact List.filter_cons_of_pos (by simp [hc])
  rw [hdrop, hsplit, waiting_append, waiting_append, hnone, hcons]
  refine ⟨by simp, ?_⟩
  simp [settled, hc]

theorem waiting_upsert_sublist
    (h : (((cs.find? fun c => c.HasDigest digest).map f).getD new).confirmed = true) :
    (waiting (upsert digest f new cs)).Sublist (waiting cs) := by
  induction cs with
  | nil =>
    have hnew : new.confirmed = true := h
    simp [upsert, waiting, hnew]
  | cons c cs ih =>
    by_cases hc : c.HasDigest digest
    · have hfc : (f c).confirmed = true := by simpa [hc] using h
      rw [upsert, if_pos hc, waiting, List.filter_cons_of_neg (by simp [hfc])]
      exact (List.sublist_cons_self c cs).filter _
    · rw [upsert, if_neg hc]
      have hsub := ih (by simpa [hc] using h)
      by_cases hwaits : c.confirmed = true
      · simpa [waiting, hwaits] using hsub
      · simpa [waiting, hwaits] using hsub

end Candidate

namespace KeyBook

variable {hash : Bytes → Digest} {b b' : KeyBook} {f : Fingerprint} {key : Bytes} {c : Call}
  {v : UInt32} {x : Candidate}

/-! ## The queue -/

/-- The candidates that wait, by version and then in the order of their version. -/
def waiting (b : KeyBook) : List Candidate := Candidate.waiting b.pending.values.flatten

/-- Those of lower versions. -/
def waitingBelow (b : KeyBook) (v : UInt32) : List Candidate :=
  Candidate.waiting (b.pending.filter fun w _ => w < v).values.flatten

/-- Those of higher versions. -/
def waitingAbove (b : KeyBook) (v : UInt32) : List Candidate :=
  Candidate.waiting (b.pending.filter fun w _ => v < w).values.flatten

theorem unconfirmed_eq_length (b : KeyBook) : b.unconfirmed = b.waiting.length := rfl

theorem waiting_eq (b : KeyBook) (v : UInt32) :
    b.waiting = b.waitingBelow v ++ Candidate.waiting (b.candidates v) ++ b.waitingAbove v := by
  have hsplit := values_split b.pending v
  simp only [Std.compare_eq_lt] at hsplit
  rw [waiting, hsplit, List.flatten_append, List.flatten_append, Candidate.waiting_append,
    Candidate.waiting_append, waitingBelow, waitingAbove, candidates]
  cases b.pending[v]? <;> simp

theorem waiting_replace (h : ∀ w : UInt32, w ≠ v → b'.pending[w]? = b.pending[w]?) :
    b'.waiting = b.waitingBelow v ++ Candidate.waiting (b'.candidates v) ++ b.waitingAbove v := by
  have hfilter (keep : UInt32 → Bool) (hv : keep v = false) :
      (b'.pending.filter fun w _ => keep w) = b.pending.filter fun w _ => keep w := by
    refine Std.ExtTreeMap.ext_getElem? fun w => ?_
    rw [Std.ExtTreeMap.getElem?_filter', Std.ExtTreeMap.getElem?_filter']
    by_cases hw : w = v
    · subst hw
      simp [hv]
    · rw [h w hw]
  rw [b'.waiting_eq v, waitingBelow, waitingAbove, hfilter (fun w => decide (w < v)) (by simp),
    hfilter (fun w => decide (v < w)) (by simp)]
  rfl

theorem mem_waiting : x ∈ b.waiting ↔ ∃ w, x ∈ b.candidates w ∧ x.confirmed = false := by
  rw [waiting, Candidate.mem_waiting, List.mem_flatten]
  constructor
  · rintro ⟨⟨cs, hcs, hx⟩, hwaits⟩
    obtain ⟨w, hw⟩ := mem_values.1 hcs
    exact ⟨w, by rwa [candidates, hw], hwaits⟩
  · rintro ⟨w, hx, hwaits⟩
    cases hw : b.pending[w]? with
    | none => simp [candidates, hw] at hx
    | some cs =>
      rw [candidates, hw] at hx
      exact ⟨⟨cs, mem_values.2 ⟨w, hw⟩, hx⟩, hwaits⟩

theorem mem_waiting_filter (keep : UInt32 → Bool) :
    x ∈ Candidate.waiting (b.pending.filter fun w _ => keep w).values.flatten ↔
      ∃ w, keep w = true ∧ x ∈ b.candidates w ∧ x.confirmed = false := by
  have hmem := mem_waiting (b := { b with pending := b.pending.filter fun w _ => keep w }) (x := x)
  simp only [candidates, getD_filter] at hmem
  refine hmem.trans (exists_congr fun w => ?_)
  cases hkeep : keep w <;> simp [candidates]

theorem mem_waitingBelow :
    x ∈ b.waitingBelow v ↔ ∃ w, w < v ∧ x ∈ b.candidates w ∧ x.confirmed = false :=
  (mem_waiting_filter fun w => decide (w < v)).trans (by simp)

theorem mem_waitingAbove :
    x ∈ b.waitingAbove v ↔ ∃ w, v < w ∧ x ∈ b.candidates w ∧ x.confirmed = false :=
  (mem_waiting_filter fun w => decide (v < w)).trans (by simp)

/-! ## Dropping candidates -/

theorem Drops.waitingAbove (h : Drops v b b') : b.waitingAbove v = [] :=
  List.eq_nil_iff_forall_not_mem.2 fun x hx => by
    obtain ⟨w, hlt, hx, hwaits⟩ := mem_waitingAbove.1 hx
    simp [h.highest w hlt x hx] at hwaits

/-- **The last of the queue is dropped.** -/
theorem waiting_evictOne (b : KeyBook) : b.evictOne.waiting = b.waiting.dropLast := by
  rcases b.evictOne_cases with ⟨hall, heq⟩ | ⟨v, h⟩
  · have hnil : b.waiting = [] := List.eq_nil_iff_forall_not_mem.2 fun x hx => by
      obtain ⟨w, hx, hwaits⟩ := mem_waiting.1 hx
      simp [hall w x hx] at hwaits
    rw [heq, hnil, List.dropLast_nil]
  · have hne : Candidate.waiting (b.candidates v) ≠ [] := by
      obtain ⟨c, hc, hwaits⟩ := List.any_eq_true.1 h.unconfirmed
      exact List.ne_nil_of_mem (Candidate.mem_waiting.2 ⟨hc, by simpa using hwaits⟩)
    rw [waiting_replace h.other, h.candidates,
      (Candidate.filter_dropLastUnconfirmed h.unconfirmed).1, b.waiting_eq v, h.waitingAbove,
      List.append_nil, List.append_nil, List.dropLast_append_of_ne_nil hne]

/-- **Dropping candidates cuts the queue at its end.** -/
theorem waiting_evict (b : KeyBook) : b.evict.waiting = b.waiting.take maxUnconfirmed := by
  have hrepeat (n : Nat) :
      (Nat.repeat evictOne n b).waiting = b.waiting.take (b.waiting.length - n) := by
    induction n with
    | zero => exact (List.take_length).symm
    | succ n ih =>
      rw [Nat.repeat, waiting_evictOne, ih, List.dropLast_eq_take, List.take_take,
        List.length_take, List.take_eq_take_iff]
      omega
  rw [evict, hrepeat, unconfirmed_eq_length, List.take_eq_take_iff]
  omega

theorem settled_evict (b : KeyBook) (w : UInt32) :
    Candidate.settled (b.evict.candidates w) = Candidate.settled (b.candidates w) := by
  refine evict_induction (P := fun b' => Candidate.settled (b'.candidates w) =
    Candidate.settled (b.candidates w)) rfl fun b' hsame => ?_
  rw [← hsame]
  rcases b'.evictOne_cases with ⟨-, heq⟩ | ⟨v, h⟩
  · rw [heq]
  · by_cases hw : w = v
    · rw [hw, h.candidates, (Candidate.filter_dropLastUnconfirmed h.unconfirmed).2]
    · rw [candidates_congr (h.other w hw)]

/-- No version has an empty list of candidates. -/
def IsFilled (b : KeyBook) : Prop := ∀ v : UInt32, b.pending[v]? ≠ some []

theorem IsFilled.evict (h : b.IsFilled) : b.evict.IsFilled := by
  refine evict_induction h fun b' h => ?_
  rcases b'.evictOne_cases with ⟨-, heq⟩ | ⟨v, hdrops⟩
  · rwa [heq]
  · intro w
    by_cases hw : w = v
    · rw [hw]
      exact hdrops.filled
    · rw [hdrops.other w hw]
      exact h w

/-! ## The queue and one call -/

/-- The candidate that a call adds to the queue: only bytes of a key that is newer than the adopted
one and has no candidate yet add one. -/
def incoming (hash : Bytes → Digest) (b : KeyBook) : Call → List Candidate
  | .observe _ => []
  | .offer f key =>
    if f.IsNewer b.current ∧ f.Matches hash key ∧ b.find? f = none then [⟨f, some key, false⟩]
    else []

/-- The queue with the candidate that a call adds, which is put after those of its version. -/
def queue (hash : Bytes → Digest) (b : KeyBook) (c : Call) : List Candidate :=
  b.waitingBelow c.fingerprint.version ++ (Candidate.waiting (b.candidates c.fingerprint.version) ++
    b.incoming hash c) ++ b.waitingAbove c.fingerprint.version

theorem queue_perm (hash : Bytes → Digest) (b : KeyBook) (c : Call) :
    (b.queue hash c).Perm (b.waiting ++ b.incoming hash c) := by
  rw [queue, b.waiting_eq c.fingerprint.version, ← List.append_assoc, List.append_assoc,
    List.append_assoc (_ ++ _) (b.waitingAbove _)]
  exact List.perm_append_comm.append_left _

theorem waiting_sublist_queue (hash : Bytes → Digest) (b : KeyBook) (c : Call) :
    b.waiting.Sublist (b.queue hash c) := by
  rw [queue, b.waiting_eq c.fingerprint.version]
  exact ((List.sublist_append_left _ _).append_left _).append_right _

theorem waiting_put (b : KeyBook) (c : Call) :
    (b.put c).waiting = b.waitingBelow c.fingerprint.version ++ Candidate.waiting (b.noted c) ++
      b.waitingAbove c.fingerprint.version := by
  rw [waiting_replace (b := b) (v := c.fingerprint.version) fun w hw =>
    getElem?_insert_of_ne hw.symm, candidates_put, if_pos rfl]

theorem IsFilled.put (h : b.IsFilled) (c : Call) : (b.put c).IsFilled := by
  intro w hw
  rcases getElem?_insert_cases hw with ⟨-, hnil⟩ | ⟨-, hw⟩
  · have hfind := b.find?_noted c
    rw [hnil] at hfind
    simp at hfind
  · exact h w hw

theorem waiting_filter_sublist {keep : UInt32 → Bool}
    (h : b'.pending = b.pending.filter fun w _ => keep w) : b'.waiting.Sublist b.waiting := by
  rw [waiting, waiting, h, values_eq_map_toList, values_eq_map_toList, Std.ExtTreeMap.toList_filter]
  exact ((List.filter_sublist.map _).flatten).filter _

theorem IsFilled.filter {keep : UInt32 → Bool} (h : b.IsFilled)
    (hpending : b'.pending = b.pending.filter fun w _ => keep w) : b'.IsFilled := by
  intro w hw
  rw [hpending, Std.ExtTreeMap.getElem?_filter', Option.filter_eq_some_iff] at hw
  exact h w hw.1

theorem pending_note_observe (b : KeyBook) (f : Fingerprint) :
    (b.note (.observe f)).pending =
      (b.put (.observe f)).pending.filter fun w _ => decide (f.version ≤ w) := by
  refine Std.ExtTreeMap.ext_getElem? fun w => ?_
  rw [Std.ExtTreeMap.getElem?_filter', note, put, Call.fingerprint]
  by_cases hw : f.version = w
  · subst hw
    rw [Std.ExtTreeMap.getElem?_insert_self, Std.ExtTreeMap.getElem?_insert_self,
      Option.filter_some, if_pos (decide_eq_true UInt32.le_rfl)]
  · rw [getElem?_insert_of_ne hw, getElem?_insert_of_ne hw, Std.ExtTreeMap.getElem?_filter']

theorem waiting_note_sublist (b : KeyBook) (c : Call) :
    (b.note c).waiting.Sublist (b.put c).waiting := by
  cases c with
  | observe f => exact waiting_filter_sublist (b.pending_note_observe f)
  | offer f key =>
    change (b.put (.offer f key)).evict.waiting.Sublist _
    rw [waiting_evict]
    exact List.take_sublist _ _

theorem IsFilled.note (h : b.IsFilled) (c : Call) : (b.note c).IsFilled := by
  cases c with
  | observe f => exact (h.put _).filter (b.pending_note_observe f)
  | offer f key => exact (h.put (.offer f key)).evict

/-- **An adoption gives up the whole version**, if there is a next one. -/
theorem pending_adopt (b : KeyBook) (hlast : f.version.toNat + 1 < UInt32.size) :
    (b.adopt f).2 = b ∨
      (b.adopt f).2.pending = b.pending.filter fun w _ => decide (f.version < w) := by
  have hnext (w : UInt32) : UInt32.ofNat (min (f.version.toNat + 1) (UInt32.size - 1)) ≤ w ↔
      f.version < w := by
    rw [UInt32.le_iff_toNat_le, UInt32.toNat_ofNat_of_lt' (by omega), UInt32.lt_iff_toNat_lt]
    omega
  cases hi : (b.candidates f.version).findIdx?
    (fun c => c.HasDigest f.digest && c.confirmed && c.key.isSome) with
  | none => exact .inl (by simp only [adopt, hi])
  | some i =>
    have hlt := (List.findIdx?_eq_some_iff_getElem.1 hi).1
    refine .inr (Std.ExtTreeMap.ext_getElem? fun w => ?_)
    simp only [adopt, hi, List.getElem?_eq_getElem hlt, hnext]
    rw [Std.ExtTreeMap.getElem?_filter', Std.ExtTreeMap.getElem?_filter']
    by_cases hw : f.version = w
    · subst hw
      simp
    · rw [getElem?_insert_of_ne hw]

/-- Every candidate that waits has its bytes. -/
def HasBytes (b : KeyBook) : Prop :=
  ∀ v, ∀ x ∈ b.candidates v, x.confirmed = false → x.key.isSome = true

theorem HasBytes.call (h : b.HasBytes) (hash : Bytes → Digest) (c : Call) :
    (b.call hash c).2.HasBytes := by
  intro v x hx hwaits
  rcases mem_of_mem_call hx with hx | hx
  · exact h v x hx hwaits
  · rcases mem_note hx with hx | ⟨-, rfl | ⟨x₀, hx₀, -, rfl⟩⟩
    · exact h v x hx hwaits
    · cases c with
      | observe f => cases hwaits
      | offer f key => rfl
    · cases c with
      | observe f => cases hwaits
      | offer f key => rfl

/-- **A call adds no more than one candidate to the queue**, after those of its version. -/
theorem waiting_call_sublist (hfiled : b.Filed) (hbytes : b.HasBytes) (c : Call)
    (hlast : (b.call hash c).2.current.version.toNat + 1 < UInt32.size) :
    (b.call hash c).2.waiting.Sublist (b.queue hash c) ∧
      (b.IsFilled → (b.call hash c).2.IsFilled) := by
  rcases call_cases hash b c with heq | ⟨hnewer, hgenuine, heq⟩
  · rw [heq]
    exact ⟨b.waiting_sublist_queue hash c, id⟩
  -- What is put in waits only if it is new; bytes of a candidate that waits are there already.
  have hput : (b.call hash c).2 = b ∨ (b.put c).waiting.Sublist (b.queue hash c) := by
    rw [waiting_put, queue]
    cases hconfirmed : (((b.find? c.fingerprint).map c.change).getD c.fresh).confirmed with
    | true =>
      have hsub : (Candidate.waiting (b.noted c)).Sublist
          (Candidate.waiting (b.candidates c.fingerprint.version)) :=
        Candidate.waiting_upsert_sublist hconfirmed
      exact .inr (((hsub.trans (List.sublist_append_left _ _)).append_left _).append_right _)
    | false =>
      cases c with
      | observe f => cases hx : b.find? f <;> simp [Call.fingerprint, Call.change, Call.fresh, hx]
          at hconfirmed
      | offer f key =>
        cases hx : b.find? f with
        | none =>
          have hincoming : b.incoming hash (.offer f key) = [⟨f, some key, false⟩] :=
            if_pos ⟨hnewer, hgenuine, hx⟩
          rw [noted_offer hx, Candidate.waiting_append, hincoming]
          exact .inr (List.Sublist.refl _)
        | some x =>
          have hwaits : x.confirmed = false := by
            simpa [Call.fingerprint, Call.change, hx] using hconfirmed
          have hheld : b.HasKeyFor f := .inr (by
            rw [hx]
            exact hbytes _ x (mem_of_find? hx).1 hwaits)
          exact .inl (by rw [call_offer_of_hasKeyFor hheld])
  rcases hput with hsame | hput
  · rw [hsame]
    exact ⟨b.waiting_sublist_queue hash c, id⟩
  have hnote := (b.waiting_note_sublist c).trans hput
  rw [heq] at hlast ⊢
  rcases adopt_cases (b.note c) c.fingerprint with ⟨hadopt, -⟩ | ⟨b', a, rest, hadopt, ha⟩
  · rw [hadopt]
    exact ⟨hnote, fun h => h.note c⟩
  · have hversion : b'.current.version = c.fingerprint.version := ha.version (hfiled.note hnewer)
    rw [hadopt, hversion] at hlast
    rcases pending_adopt (b.note c) hlast with hsame | hpending
    · rw [hsame]
      exact ⟨hnote, fun h => h.note c⟩
    · exact ⟨(waiting_filter_sublist hpending).trans hnote, fun h => (h.note c).filter hpending⟩

/-! ## The order of the queue -/

/-- How many calls were made before a candidate came to wait, for the last time; all of them, if it
does not wait. -/
def arrival (hash : Bytes → Digest) (calls : List Call) (x : Candidate) : Nat :=
  Nat.findGreatest (fun n => x ∉ (run hash empty (calls.take n)).waiting) calls.length

/-- The lower version comes first, and of one version what arrived first. -/
def Precedes (hash : Bytes → Digest) (calls : List Call) (x y : Candidate) : Prop :=
  x.fingerprint.version < y.fingerprint.version ∨
    x.fingerprint.version = y.fingerprint.version ∧ arrival hash calls x < arrival hash calls y

variable {calls : List Call}

theorem arrival_of_notMem (h : x ∉ (run hash empty calls).waiting) :
    arrival hash calls x = calls.length :=
  Nat.findGreatest_eq (by rwa [List.take_length])

theorem arrival_lt_of_mem (h : x ∈ (run hash empty calls).waiting) :
    arrival hash calls x < calls.length := by
  refine Nat.lt_of_le_of_ne (Nat.findGreatest_le _) fun heq => ?_
  have hne : calls.length ≠ 0 := fun hnil => by
    rw [List.length_eq_zero_iff.1 hnil] at h
    cases h
  have habsent := Nat.findGreatest_of_ne_zero heq hne
  rw [List.take_length] at habsent
  exact habsent h

theorem findGreatest_congr {p q : Nat → Prop} [DecidablePred p] [DecidablePred q] {n : Nat}
    (h : ∀ k ≤ n, p k ↔ q k) : Nat.findGreatest p n = Nat.findGreatest q n := by
  induction n with
  | zero => rfl
  | succ n ih =>
    rw [Nat.findGreatest_succ, Nat.findGreatest_succ, ih fun k hk => h k (Nat.le_succ_of_le hk)]
    simp only [h (n + 1) (Nat.le_refl _)]

theorem arrival_snoc (h : x ∈ (run hash empty (calls ++ [c])).waiting) :
    arrival hash (calls ++ [c]) x = arrival hash calls x := by
  rw [arrival, List.length_append, List.length_singleton, Nat.findGreatest_succ,
    if_neg (by rwa [List.take_of_length_le (by simp), not_not])]
  refine findGreatest_congr fun n hn => ?_
  rw [List.take_append_of_le_length hn]

theorem precedes_snoc {y : Candidate} (hx : x ∈ (run hash empty (calls ++ [c])).waiting)
    (hy : y ∈ (run hash empty (calls ++ [c])).waiting) (h : Precedes hash calls x y) :
    Precedes hash (calls ++ [c]) x y := by
  rwa [Precedes, arrival_snoc hx, arrival_snoc hy]

theorem of_mem_incoming (hfiled : b.Filed) (h : x ∈ b.incoming hash c) :
    x.fingerprint.version = c.fingerprint.version ∧ x ∉ b.waiting := by
  cases c with
  | observe f => cases h
  | offer f key =>
    by_cases hnew : f.IsNewer b.current ∧ f.Matches hash key ∧ b.find? f = none
    · rw [incoming, if_pos hnew] at h
      obtain rfl := List.mem_singleton.1 h
      refine ⟨rfl, fun hwaits => ?_⟩
      obtain ⟨w, hx, -⟩ := mem_waiting.1 hwaits
      obtain rfl : f.version = w := hfiled.version w _ hx
      exact not_hasDigest_of_find? hnew.2.2 _ hx rfl
    · rw [incoming, if_neg hnew] at h
      cases h

theorem pairwise_incoming (b : KeyBook) (c : Call) {R : Candidate → Candidate → Prop} :
    (b.incoming hash c).Pairwise R := by
  cases c with
  | observe f => exact .nil
  | offer f key =>
    by_cases hnew : f.IsNewer b.current ∧ f.Matches hash key ∧ b.find? f = none
    · rw [incoming, if_pos hnew]
      exact List.pairwise_singleton _ _
    · rw [incoming, if_neg hnew]
      exact .nil

/-- **The queue stays in order** with the candidate that one more call adds. -/
theorem queue_sorted (hfiled : b.Filed) (hb : b = run hash empty calls)
    (h : b.waiting.Pairwise (Precedes hash calls)) (c : Call) :
    (b.queue hash c).Pairwise (Precedes hash calls) := by
  have hbelow : ∀ x ∈ b.waitingBelow c.fingerprint.version,
      x.fingerprint.version < c.fingerprint.version := fun x hx => by
    obtain ⟨w, hlt, hx, -⟩ := mem_waitingBelow.1 hx
    rwa [hfiled.version w x hx]
  have habove : ∀ x ∈ b.waitingAbove c.fingerprint.version,
      c.fingerprint.version < x.fingerprint.version := fun x hx => by
    obtain ⟨w, hlt, hx, -⟩ := mem_waitingAbove.1 hx
    rwa [hfiled.version w x hx]
  -- Within its version the new candidate comes last, since it arrived with this call.
  have hlater : ∀ x ∈ Candidate.waiting (b.candidates c.fingerprint.version),
      ∀ y ∈ b.incoming hash c, Precedes hash calls x y := fun x hx y hy => by
    obtain ⟨hversion, hnew⟩ := of_mem_incoming hfiled hy
    obtain ⟨hx, hwaits⟩ := Candidate.mem_waiting.1 hx
    refine .inr ⟨(hfiled.version _ x hx).trans hversion.symm, ?_⟩
    have hmem : x ∈ b.waiting := mem_waiting.2 ⟨_, hx, hwaits⟩
    rw [hb] at hnew hmem
    rw [arrival_of_notMem hnew]
    exact arrival_lt_of_mem hmem
  rw [b.waiting_eq c.fingerprint.version, List.pairwise_append, List.pairwise_append] at h
  obtain ⟨⟨hlow, hown, hlowOwn⟩, hhigh, hlowHigh⟩ := h
  rw [queue, List.pairwise_append, List.pairwise_append, List.pairwise_append]
  refine ⟨⟨hlow, ⟨hown, b.pairwise_incoming c, hlater⟩, fun x hx y hy => ?_⟩, hhigh,
    fun x hx y hy => ?_⟩
  · rcases List.mem_append.1 hy with hy | hy
    · exact hlowOwn x hx y hy
    · exact .inl ((of_mem_incoming hfiled hy).1 ▸ hbelow x hx)
  · rcases List.mem_append.1 hx with hx | hx
    · exact hlowHigh x (List.mem_append_left _ hx) y hy
    · rcases List.mem_append.1 hx with hx | hx
      · exact hlowHigh x (List.mem_append_right _ hx) y hy
      · exact .inl ((of_mem_incoming hfiled hx).1 ▸ habove y hy)

/-- After these calls the queue is in order, and no version has an empty list. -/
structure Queued (hash : Bytes → Digest) (calls : List Call) (b : KeyBook) : Prop where
  sorted : b.waiting.Pairwise (Precedes hash calls)
  filled : b.IsFilled

theorem hasBytes_empty : empty.HasBytes := fun v x hx => by simp [empty, candidates] at hx

theorem HasBytes.run (h : b.HasBytes) (hash : Bytes → Digest) (calls : List Call) :
    (run hash b calls).HasBytes := by
  induction calls generalizing b with
  | nil => exact h
  | cons c calls ih => exact ih (h.call hash c)

/-- **The queue is in order after any calls**, as long as there is a next version. -/
theorem queued_run (hash : Bytes → Digest) (calls : List Call)
    (hlast : (run hash empty calls).current.version.toNat + 1 < UInt32.size) :
    (run hash empty calls).Queued hash calls := by
  induction calls using List.reverseRecOn with
  | nil => exact ⟨.nil, fun v => by simp [run, empty]⟩
  | append_singleton calls c ih =>
    have hfiled := (orderly_empty.run hash calls).toFiled
    have hle := UInt32.le_iff_toNat_le.1 (current_le_call hfiled hash c)
    rw [run_snoc] at hlast
    have hqueued := ih (by omega)
    obtain ⟨hsub, hfilled⟩ := waiting_call_sublist hfiled (hasBytes_empty.run hash calls) c hlast
    have hsorted := (queue_sorted hfiled rfl hqueued.sorted c).sublist hsub
    rw [← run_snoc] at hsorted hfilled
    exact ⟨hsorted.imp_of_mem fun hx hy => precedes_snoc hx hy, hfilled hqueued.filled⟩

/-! ## Offers that adopt nothing -/

/-- An offer that adopts nothing adds no candidate and does nothing, or it puts one in, and drops
the last ones if there are too many. -/
theorem offer_false_cases (hfiled : b.Filed) (hbytes : b.HasBytes)
    (h : (b.offer hash f key).1 = false) :
    b.incoming hash (.offer f key) = [] ∧ (b.offer hash f key).2 = b ∨
      b.incoming hash (.offer f key) = [⟨f, some key, false⟩] ∧ b.find? f = none ∧
        (b.offer hash f key).2 = (b.put (.offer f key)).evict := by
  have hnote (hoffer : b.offer hash f key = (b.note (.offer f key)).adopt f) :
      (b.offer hash f key).2 = b.note (.offer f key) := by
    rcases adopt_cases (b.note (.offer f key)) f with ⟨heq, -⟩ | ⟨b', a, rest, heq, -⟩
    · rw [hoffer, heq]
    · rw [hoffer, heq] at h
      cases h
  by_cases hnew : f.IsNewer b.current ∧ f.Matches hash key ∧ b.find? f = none
  · obtain ⟨hnewer, hgenuine, hnone⟩ := hnew
    exact .inr ⟨if_pos ⟨hnewer, hgenuine, hnone⟩, hnone,
      hnote (offer_of_isNewer hnewer hgenuine (by simp [hnone]))⟩
  refine .inl ⟨if_neg hnew, ?_⟩
  by_cases hoffer : f.IsNewer b.current ∧ f.Matches hash key
  · obtain ⟨hnewer, hgenuine⟩ := hoffer
    cases hx : b.find? f with
    | none => exact absurd ⟨hnewer, hgenuine, hx⟩ hnew
    | some x =>
      cases hkey : x.key with
      | some k =>
        have hheld : b.HasKeyFor f := .inr (by simp [hx, hkey])
        have heq : b.offer hash f key = (false, b) := call_offer_of_hasKeyFor hheld key
        rw [heq]
      | none =>
        -- Such a candidate is confirmed, and its bytes would have been adopted with it.
        have hconfirmed : x.confirmed = true := by
          by_contra hwaits
          have hsome := hbytes _ x (mem_of_find? hx).1 (Bool.eq_false_iff.2 hwaits)
          simp [hkey] at hsome
        have hagrees : (b.offer hash f key).2.current.Agrees f :=
          agrees_offer hfiled hnewer hgenuine hx hconfirmed hkey
        rw [hnote (offer_of_isNewer hnewer hgenuine (by simp [hx, hkey])), (note_spec b _).1]
          at hagrees
        rw [Fingerprint.IsNewer, hagrees.1] at hnewer
        exact absurd hnewer (UInt32.lt_irrefl _)
  · rw [offer, if_pos hoffer]

/-- **What an offer that adopts nothing does to the candidates.** Let a book come from any calls, so
that there is a version after the adopted one, and let bytes be offered to it with which no key is
adopted. The candidates that are confirmed stay as they are. Those that wait, with the one offered
if it is newer than the adopted key, has the hash, and has no candidate yet, are put in order by
version and then by arrival; the first of these go on waiting, as many as may, and no others. No
version has an empty list. -/
theorem first_in_order_wait (hash : Bytes → Digest) (calls : List Call) (f : Fingerprint)
    (key : Bytes) (hlast : (run hash empty calls).current.version.toNat + 1 < UInt32.size)
    (hkept : ((run hash empty calls).offer hash f key).1 = false) :
    let b := run hash empty calls
    let b' := (b.offer hash f key).2
    (∀ v, Candidate.settled (b'.candidates v) = Candidate.settled (b.candidates v)) ∧
    (∃ ordered : List Candidate,
      ordered.Perm (b.waiting ++ b.incoming hash (.offer f key)) ∧
      ordered.Pairwise (Precedes hash calls) ∧ b'.waiting = ordered.take maxUnconfirmed) ∧
    ∀ v : UInt32, b'.pending[v]? ≠ some [] := by
  intro b b'
  have horderly : b.Orderly := orderly_empty.run hash calls
  have hqueued : b.Queued hash calls := queued_run hash calls hlast
  have hsorted := queue_sorted horderly.toFiled rfl hqueued.sorted (.offer f key)
  have hperm := b.queue_perm hash (.offer f key)
  rcases offer_false_cases horderly.toFiled (hasBytes_empty.run hash calls) hkept with
    ⟨hnone, heq⟩ | ⟨hnew, hfirst, heq⟩
  · have hb' : b' = b := heq
    rw [hb']
    refine ⟨fun v => rfl, ⟨_, hperm, hsorted, ?_⟩, hqueued.filled⟩
    have hqueue : b.queue hash (.offer f key) = b.waiting := by
      rw [queue, hnone, List.append_nil, ← waiting_eq]
    have hfew : b.waiting.length ≤ maxUnconfirmed := horderly.few
    rw [hqueue, List.take_of_length_le hfew]
  · have hb' : b' = (b.put (.offer f key)).evict := heq
    rw [hb']
    refine ⟨fun v => ?_, ⟨_, hperm, hsorted, ?_⟩, (hqueued.filled.put _).evict⟩
    · rw [settled_evict, candidates_put, noted_offer hfirst]
      split
      · next hv =>
        subst hv
        simp [Candidate.settled, Call.fingerprint]
      · rfl
    · rw [waiting_evict, waiting_put, noted_offer hfirst, Candidate.waiting_append, queue, hnew]
      rfl

/-! ### A full book -/

theorem offer_of_unobserved (hash : Bytes → Digest) (h : ∀ g, .observe g ∉ calls)
    (f : Fingerprint) (key : Bytes) : ((run hash empty calls).offer hash f key).1 = false := by
  rw [Bool.eq_false_iff]
  intro htrue
  have hfiled := (orderly_empty.run hash calls).toFiled
  have hadopted := (upholds_run hash (calls ++ [.offer f key])).adopted
  rw [run_snoc] at hadopted
  rcases call_cases hash (run hash empty calls) (.offer f key) with heq | ⟨hnewer, -, heq⟩
  · rw [show (run hash empty calls).offer hash f key = _ from heq] at htrue
    cases htrue
  · rcases adopt_cases ((run hash empty calls).note (.offer f key)) f with
      ⟨hadopt, -⟩ | ⟨b', a, rest, hadopt, ha⟩
    · rw [show (run hash empty calls).offer hash f key = _ from heq, Call.fingerprint, hadopt]
        at htrue
      cases htrue
    · rw [heq, Call.fingerprint, hadopt, ha.version (hfiled.note hnewer)] at hadopted
      obtain ⟨⟨g, hg, -⟩, -⟩ := hadopted (UInt32.lt_of_le_of_lt UInt32.zero_le hnewer)
      exact h g (by simpa using hg)

/-- An offer of some key as this version. -/
def sampleOffer (version : UInt32) : Call :=
  .offer (.ofKey Suite.sample.hash version .zero [7]) [7]

/-- Sixteen keys are offered, of the versions from two on. -/
def sampleOffers : List Call := (List.range 16).map fun i => sampleOffer (.ofNat (i + 2))

/-- All of them wait, and one of version one is offered: the first sixteen of the seventeen go on
waiting. -/
theorem first_in_order_wait_full :
    ∃ b new r, run Suite.sample.hash empty sampleOffers = b ∧ b.waiting.length = 16 ∧
      b.incoming Suite.sample.hash (sampleOffer 1) = [new] ∧
      b.call Suite.sample.hash (sampleOffer 1) = (false, r) ∧
      ∃ ordered : List Candidate, ordered.Perm (b.waiting ++ [new]) ∧
        ordered.Pairwise (Precedes Suite.sample.hash sampleOffers) ∧
        r.waiting = ordered.take maxUnconfirmed := by
  have hrun : (run Suite.sample.hash empty sampleOffers).waiting.length = 16 ∧
      (run Suite.sample.hash empty sampleOffers).current.version.toNat + 1 < UInt32.size ∧
      ((run Suite.sample.hash empty sampleOffers).incoming Suite.sample.hash
        (sampleOffer 1)).length = 1 := by
    decide +kernel
  obtain ⟨hlength, hlast, hincoming⟩ := hrun
  obtain ⟨new, hnew⟩ := List.length_eq_one_iff.1 hincoming
  have hunobserved : ∀ g, Call.observe g ∉ sampleOffers := by
    simp [sampleOffers, sampleOffer]
  have hkept := offer_of_unobserved Suite.sample.hash hunobserved
    (.ofKey Suite.sample.hash 1 .zero [7]) [7]
  obtain ⟨-, hordered, -⟩ := first_in_order_wait Suite.sample.hash _ _ _ hlast hkept
  obtain ⟨b, hb⟩ : ∃ b, run Suite.sample.hash empty sampleOffers = b := ⟨_, rfl⟩
  rw [hb] at hlength hnew hkept hordered
  rw [show b.incoming Suite.sample.hash (.offer _ _) = [new] from hnew] at hordered
  exact ⟨b, new, _, hb, hlength, hnew, Prod.ext hkept rfl, hordered⟩

end KeyBook

end GroupKey
