import GroupKey.Proofs.Session.Retention

/-!
# A book that is told of one key after the other

The coordinator tells its book only of keys that it accepts, each newer than the one before. If it
has the bytes it offers them first, and then it confirms the fingerprint. In such a book nothing
waits to be confirmed and nothing is newer than the key accepted last, though keys whose bytes never
came may wait for them. So there is always room for the next key, and if its bytes are there, it is
adopted at once.

* `IsSettled` — what such a book is like.
* `IsSettled.observe` — it stays so when a newer key is confirmed.
* `IsSettled.offer_observe` — a newer key is adopted when it is offered and confirmed.
-/

namespace GroupKey.KeyBook

variable {hash : Bytes → Digest} {b : KeyBook} {accepted f : Fingerprint} {key : Bytes}
  {x : Candidate}

/-- Nothing in the book is newer than the key accepted last, and no candidate waits to be
confirmed. -/
structure IsSettled (b : KeyBook) (accepted : Fingerprint) : Prop where
  current : b.current.version ≤ accepted.version
  none_newer : ∀ v, accepted.version < v → b.candidates v = []
  confirmed : ∀ v, ∀ c ∈ b.candidates v, c.confirmed = true

theorem isSettled_empty (accepted : Fingerprint) : empty.IsSettled accepted where
  current := UInt32.zero_le
  none_newer v _ := by simp [empty, candidates]
  confirmed v c hc := by simp [empty, candidates] at hc

theorem IsSettled.isNewer (h : b.IsSettled accepted) (hnewer : f.IsNewer accepted) :
    f.IsNewer b.current :=
  UInt32.lt_of_le_of_lt h.current hnewer

/-! ## The next key -/

/-- The book has one candidate, of the fingerprint, and it is confirmed. -/
structure IsReduced (b : KeyBook) (f : Fingerprint) (x : Candidate) : Prop where
  current : b.current.version ≤ f.version
  only : ∀ v, b.candidates v = if f.version = v then [x] else []
  fingerprint : x.fingerprint = f
  confirmed : x.confirmed = true

/-- **The candidate is adopted if its bytes are there.** Either way the book is settled. -/
theorem IsReduced.adopt (h : b.IsReduced f x) :
    (b.adopt f).2.IsSettled f ∧
      (x.key.isSome = true → (b.adopt f).2.current = f ∧ (b.adopt f).2.key = x.key) := by
  have hself : b.candidates f.version = [x] := by rw [h.only, if_pos rfl]
  have hmem {v c} (hc : c ∈ b.candidates v) : f.version = v ∧ c = x := by
    rw [h.only] at hc
    split at hc
    · next heq => exact ⟨heq, List.mem_singleton.1 hc⟩
    · simp at hc
  rcases b.adopt_cases f with ⟨heq, hincomplete⟩ | ⟨b', a, rest, heq, ha⟩ <;> rw [heq]
  · refine ⟨⟨h.current, fun v hv => ?_, fun v c hc => (hmem hc).2 ▸ h.confirmed⟩, fun hkey => ?_⟩
    · rw [h.only, if_neg (UInt32.ne_of_lt hv)]
    · have hdigest : x.HasDigest f.digest := congrArg Fingerprint.digest h.fingerprint
      exact absurd ⟨h.confirmed, hkey⟩ (hincomplete x (by simp [hself]) hdigest)
  · obtain rfl : a = x := (hmem ha.mem).2
    have hcurrent : b'.current = f := ha.current.trans h.fingerprint
    have hsettled : b'.IsSettled f := by
      refine ⟨hcurrent ▸ UInt32.le_rfl, fun v hv => ?_, fun v c hc => ?_⟩
      · refine List.eq_nil_iff_forall_not_mem.2 fun c hc => ?_
        exact UInt32.ne_of_lt hv (hmem (ha.mem_of_mem hc)).1
      · exact (hmem (ha.mem_of_mem hc)).2 ▸ h.confirmed
    exact ⟨hsettled, fun _ => ⟨hcurrent, ha.key⟩⟩

/-- When the newest version is confirmed, all else is given up. -/
theorem candidates_note_observe (h : ∀ v, f.version < v → b.candidates v = []) (v : UInt32) :
    (b.note (.observe f)).candidates v =
      if f.version = v then b.noted (.observe f) else [] := by
  rw [note, candidates, getD_insert, getD_filter b.pending v fun w => decide (f.version ≤ w)]
  split
  · rfl
  · next hne =>
    split
    · next hle =>
      have hle : f.version ≤ v := of_decide_eq_true hle
      exact h v (UInt32.lt_of_le_of_ne hle hne)
    · rfl

/-- **A newer key is confirmed.** Its bytes are not there, so it is not adopted yet. -/
theorem IsSettled.observe (h : b.IsSettled accepted) (hnewer : f.IsNewer accepted) :
    (b.observe f).2.IsSettled f := by
  have hfirst := h.none_newer f.version hnewer
  have hnoted : b.noted (.observe f) = [⟨f, none, true⟩] := by
    rw [noted, Call.fingerprint, hfirst]
    rfl
  have hreduced : (b.note (.observe f)).IsReduced f ⟨f, none, true⟩ := by
    refine ⟨UInt32.le_of_lt (h.isNewer hnewer), fun v => ?_, rfl, rfl⟩
    rw [candidates_note_observe (fun v hv => h.none_newer v (UInt32.lt_trans hnewer hv)) v, hnoted]
  rw [observe_of_isNewer (h.isNewer hnewer)]
  exact hreduced.adopt.1

theorem IsSettled.offer (h : b.IsSettled accepted) (hnewer : f.IsNewer accepted)
    (hkey : f.Matches hash key) : (b.offer hash f key).2 = b.put (.offer f key) := by
  have hroom : b.unconfirmed < maxUnconfirmed := by
    rw [unconfirmed_eq_zero h.confirmed]
    decide
  have hput := call_offer_of_room hroom hkey (h.isNewer hnewer) (h.none_newer f.version hnewer)
  exact congrArg Prod.snd hput

/-- **A newer key is adopted when it is offered and confirmed**, whatever else waits. -/
theorem IsSettled.offer_observe (h : b.IsSettled accepted) (hnewer : f.IsNewer accepted)
    (hkey : f.Matches hash key) :
    let b' := ((b.offer hash f key).2.observe f).2
    b'.IsSettled f ∧ b'.current = f ∧ b'.key = some key := by
  have hfirst := h.none_newer f.version hnewer
  have hput (v : UInt32) : (b.put (.offer f key)).candidates v =
      if f.version = v then [⟨f, some key, false⟩] else b.candidates v := by
    rw [candidates_put, noted_offer (find?_of_candidates hfirst), hfirst]
    rfl
  have hnoted : (b.put (.offer f key)).noted (.observe f) = [⟨f, some key, true⟩] := by
    have hdigest : (⟨f, some key, false⟩ : Candidate).HasDigest f.digest := rfl
    rw [noted, Call.fingerprint, hput, if_pos rfl, Candidate.upsert, if_pos hdigest]
    rfl
  have hreduced : ((b.put (.offer f key)).note (.observe f)).IsReduced f ⟨f, some key, true⟩ := by
    refine ⟨UInt32.le_of_lt (h.isNewer hnewer), fun v => ?_, rfl, rfl⟩
    have hnone (v : UInt32) (hv : f.version < v) : (b.put (.offer f key)).candidates v = [] := by
      rw [hput, if_neg (UInt32.ne_of_lt hv)]
      exact h.none_newer v (UInt32.lt_trans hnewer hv)
    rw [candidates_note_observe hnone, hnoted]
  have hcurrent : f.IsNewer (b.put (.offer f key)).current := h.isNewer hnewer
  rw [h.offer hnewer hkey, observe_of_isNewer hcurrent]
  exact ⟨hreduced.adopt.1, hreduced.adopt.2 rfl⟩

theorem IsSettled.observe_after (h : b.IsSettled accepted) (hnewer : f.IsNewer accepted)
    (hash : Bytes → Digest) (key : Bytes) : ((b.offer hash f key).2.observe f).2.IsSettled f := by
  by_cases hkey : f.Matches hash key
  · exact (h.offer_observe hnewer hkey).1
  · have hpassed : b.offer hash f key = (false, b) := if_pos fun hgood => hkey hgood.2
    rw [hpassed]
    exact h.observe hnewer

end GroupKey.KeyBook
