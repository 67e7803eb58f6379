import GroupKey.Proofs.Session.Waiting

/-!
# Calls that are made twice

A distribution reaches a member from its sender and again from the coordinator, so a book is told
many things twice. The second time it is passed over: what the call brings is there, or its key is
no longer new enough, or it was dropped at once and is dropped again.

* `note_note_observe` — a confirmation that was noted is noted already.
* `call_offer_again` — so are bytes, unless they were dropped and are put in as before.
* `call_call` — no call has an effect the second time.
-/

namespace GroupKey

namespace Candidate

variable {digest : Digest} {f : Candidate → Candidate} {new : Candidate}

theorem upsert_upsert (hf : ∀ c, (f c).fingerprint = c.fingerprint) (hff : ∀ c, f (f c) = f c)
    (hnew : new.HasDigest digest) (hfnew : f new = new) (cs : List Candidate) :
    upsert digest f new (upsert digest f new cs) = upsert digest f new cs := by
  induction cs with
  | nil => simp [upsert, hnew, hfnew]
  | cons c cs ih =>
    by_cases hc : c.HasDigest digest
    · have hfc : (f c).HasDigest digest := by rwa [HasDigest, hf]
      simp [upsert, hc, hfc, hff]
    · simp [upsert, hc, ih]

end Candidate

namespace KeyBook

variable {hash : Bytes → Digest} {b b' : KeyBook} {f : Fingerprint} {key : Bytes}

theorem candidates_note_observe_self (b : KeyBook) (f : Fingerprint) :
    (b.note (.observe f)).candidates f.version = b.noted (.observe f) := by
  rw [note, candidates, getD_insert, if_pos rfl]

/-- What a confirmation leaves is not changed by it again. -/
theorem note_note_observe (b : KeyBook) (f : Fingerprint) :
    (b.note (.observe f)).note (.observe f) = b.note (.observe f) := by
  have hnoted : (b.note (.observe f)).noted (.observe f) = b.noted (.observe f) := by
    rw [noted, Call.fingerprint, candidates_note_observe_self, noted]
    exact Candidate.upsert_upsert (Call.observe f).fingerprint_change (fun _ => rfl)
      (Call.observe f).hasDigest_fresh rfl _
  have hpending : ((b.note (.observe f)).note (.observe f)).pending =
      (b.note (.observe f)).pending := by
    refine Std.ExtTreeMap.ext_getElem? fun w => ?_
    rw [pending_note_observe, put, hnoted, Std.ExtTreeMap.getElem?_filter', Call.fingerprint]
    by_cases hw : f.version = w
    · subst hw
      rw [note, Std.ExtTreeMap.getElem?_insert_self, Std.ExtTreeMap.getElem?_insert_self,
        Option.filter_some, if_pos (decide_eq_true UInt32.le_rfl)]
    · rw [getElem?_insert_of_ne hw, note, getElem?_insert_of_ne hw,
        Std.ExtTreeMap.getElem?_filter']
      cases b.pending[w]? with
      | none => rfl
      | some cs => by_cases hle : f.version ≤ w <;> simp [hle]
  calc (b.note (.observe f)).note (.observe f)
      = { b with pending := ((b.note (.observe f)).note (.observe f)).pending } := rfl
    _ = b.note (.observe f) := by rw [hpending]; rfl

/-- **A full book drops at most the offer itself from its version**: after an offer that was put in,
the bytes are held, or putting them in again gives the same book. -/
theorem hasKeyFor_or_put_eq (hfew : b.unconfirmed ≤ maxUnconfirmed) (hnone : b.find? f = none)
    (hb' : b' = (b.put (.offer f key)).evict) :
    b'.HasKeyFor f ∨ b'.find? f = none ∧ b'.put (.offer f key) = b.put (.offer f key) := by
  have hself : (b.put (.offer f key)).candidates f.version =
      b.candidates f.version ++ [⟨f, some key, false⟩] := by
    rw [candidates_put, Call.fingerprint, if_pos rfl, noted_offer hnone]
  have hheld (hcandidates : b'.candidates f.version = (b.put (.offer f key)).candidates f.version) :
      b'.HasKeyFor f := by
    have hfind := find?_put_self b (.offer f key)
    rw [Call.fingerprint, hnone] at hfind
    refine .inr ?_
    rw [find?, hcandidates, ← find?, hfind]
    rfl
  by_cases hroom : (b.put (.offer f key)).unconfirmed ≤ maxUnconfirmed
  · rw [evict_of_unconfirmed_le hroom] at hb'
    exact .inl (hheld (by rw [hb']))
  have hone : (b.put (.offer f key)).unconfirmed - maxUnconfirmed = 1 := by
    rw [unconfirmed_put_offer hnone] at hroom ⊢
    omega
  have hevict : (b.put (.offer f key)).evict = (b.put (.offer f key)).evictOne := by
    rw [evict, hone, Nat.repeat, Nat.repeat]
  rw [hevict] at hb'
  rcases (b.put (.offer f key)).evictOne_cases with ⟨hall, -⟩ | ⟨v, hdrops⟩
  · have hconfirmed := hall f.version ⟨f, some key, false⟩ (by simp [hself])
    cases hconfirmed
  rw [← hb'] at hdrops
  by_cases hv : f.version = v
  · -- It is the last of its version, so it is what its version lost.
    subst hv
    have hcandidates : b'.candidates f.version = b.candidates f.version := by
      rw [hdrops.candidates, hself, Candidate.dropLastUnconfirmed_concat _ rfl]
    have hnoted : b'.noted (.offer f key) = b.noted (.offer f key) := by
      rw [noted, noted, Call.fingerprint, hcandidates]
    have hpending : (b'.put (.offer f key)).pending = (b.put (.offer f key)).pending := by
      refine Std.ExtTreeMap.ext_getElem? fun w => ?_
      rw [put, put, hnoted, Call.fingerprint]
      by_cases hw : f.version = w
      · rw [hw, Std.ExtTreeMap.getElem?_insert_self, Std.ExtTreeMap.getElem?_insert_self]
      · rw [getElem?_insert_of_ne hw, hdrops.other w (Ne.symm hw)]
        rfl
    refine .inr ⟨by rw [find?, hcandidates, ← find?, hnone], ?_⟩
    calc b'.put (.offer f key)
        = ⟨b'.current, b'.key, (b'.put (.offer f key)).pending⟩ := rfl
      _ = b.put (.offer f key) := by rw [hdrops.current, hdrops.key, hpending]
  · exact .inl (hheld (candidates_congr (hdrops.other f.version hv)))

theorem call_offer_again (h : b.Orderly) (hbytes : b.HasBytes)
    (hkept : b.call hash (.offer f key) = (false, b')) :
    b'.call hash (.offer f key) = (false, b') := by
  have hoffer : (b.offer hash f key).2 = b' := congrArg Prod.snd hkept
  rcases offer_false_cases h.toFiled hbytes (congrArg Prod.fst hkept) with
    ⟨-, hsame⟩ | ⟨hnew, hnone, heq⟩
  · have hb' : b' = b := hoffer.symm.trans hsame
    rw [hb'] at hkept ⊢
    exact hkept
  · have hb' : b' = (b.put (.offer f key)).evict := hoffer.symm.trans heq
    rcases hasKeyFor_or_put_eq h.few hnone hb' with hheld | ⟨hnone', hput⟩
    · exact call_offer_of_hasKeyFor hheld key
    · rcases call_cases hash b (.offer f key) with heq | ⟨hnewer, hgenuine, heq⟩
      · rw [hkept] at heq
        rw [(Prod.mk.inj heq).2] at hkept ⊢
        exact hkept
      · have hnote : b'.note (.offer f key) = b.note (.offer f key) := congrArg evict hput
        have hcurrent : b'.current = b.current := by
          rw [hb']
          exact (evict_spec _).2.1
        have hnewer' : f.IsNewer b'.current := by rwa [hcurrent]
        have hagain : b'.call hash (.offer f key) = (b'.note (.offer f key)).adopt f :=
          offer_of_isNewer hnewer' hgenuine (by simp [hnone'])
        rw [hagain, hnote, ← hkept, heq]
        rfl

/-- **No call has an effect the second time**: it adopts nothing, and the book stays as it is. -/
theorem call_call (h : b.Orderly) (hbytes : b.HasBytes) (c : Call) (hash : Bytes → Digest) :
    (b.call hash c).2.call hash c = (false, (b.call hash c).2) := by
  rcases call_cases hash b c with heq | ⟨hnewer, hgenuine, heq⟩
  · rw [heq]
    exact heq
  rcases adopt_cases (b.note c) c.fingerprint with ⟨hadopt, -⟩ | ⟨b', a, rest, hadopt, ha⟩
  · rw [hadopt] at heq
    rw [heq]
    cases c with
    | observe f =>
      have hnewer' : f.IsNewer (b.note (.observe f)).current := hnewer
      rw [call, observe_of_isNewer hnewer', note_note_observe]
      exact hadopt
    | offer f key => exact call_offer_again h hbytes heq
  · -- What was adopted is of the version of the call, which is not above itself.
    have hversion := ha.version (h.toFiled.note hnewer)
    rw [heq, hadopt]
    rcases call_cases hash b' c with hpassed | ⟨hnewer', -⟩
    · exact hpassed
    · rw [Fingerprint.IsNewer, hversion] at hnewer'
      exact absurd hnewer' (UInt32.lt_irrefl _)

theorem observe_again (h : b.Orderly) (hbytes : b.HasBytes) (f : Fingerprint) :
    ((b.observe f).2.observe f).2 = (b.observe f).2 :=
  (Prod.ext_iff.1 (call_call h hbytes (.observe f) fun _ => f.digest)).2

theorem offer_again (h : b.Orderly) (hbytes : b.HasBytes) (f : Fingerprint) (key : Bytes) :
    ((b.offer hash f key).2.offer hash f key).2 = (b.offer hash f key).2 :=
  (Prod.ext_iff.1 (call_call h hbytes (.offer f key) hash)).2

end KeyBook

end GroupKey
