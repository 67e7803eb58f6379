import GroupKey.Digest.Sha256
import GroupKey.Proofs.Session.Adoption

/-!
# Keys older than a confirmed version

When a version newer than the adopted key is confirmed, a book gives up all older candidates. But it
does not remember the version when it decides what is too old: until the key of that version is
there, an older version counts as new. So an older key can still be adopted, from calls that come
after the confirmation, and by such calls any version above that of the adopted key can come in.

* `candidates_observe_older` — a confirmation that is taken leaves no older candidates.
* `agrees_of_observe_offer` — what is observed and then offered is adopted, if it is newer than the
  adopted key.
* `older_adopted` — the calls by which an older key is adopted, and that they suffice.
-/

namespace GroupKey

/-! ## What is kept of a candidate -/

namespace Candidate

variable {digest : Digest} {f : Candidate → Candidate} {new : Candidate} {cs : List Candidate}

theorem find?_upsert (hf : ∀ c, (f c).fingerprint = c.fingerprint) (hnew : new.HasDigest digest) :
    (upsert digest f new cs).find? (fun c => c.HasDigest digest) =
      some (((cs.find? fun c => c.HasDigest digest).map f).getD new) := by
  induction cs with
  | nil => simp [upsert, hnew]
  | cons c cs ih =>
    by_cases hc : c.HasDigest digest
    · have hfc : (f c).HasDigest digest := (congrArg Fingerprint.digest (hf c)).trans hc
      simp [upsert, hc, hfc]
    · simpa [upsert, hc] using ih

theorem mem_dropLastUnconfirmed {c : Candidate} (hc : c ∈ cs) (hconfirmed : c.confirmed = true) :
    c ∈ dropLastUnconfirmed cs := by
  rw [dropLastUnconfirmed, List.mem_reverse]
  exact (List.mem_eraseP_of_neg (by simp [hconfirmed])).2 (List.mem_reverse.2 hc)

end Candidate

namespace KeyBook

variable {hash : Bytes → Digest} {b : KeyBook} {f g : Fingerprint} {key : Bytes} {c : Candidate}

theorem mem_evictOne {v : UInt32} (hc : c ∈ b.candidates v) (hconfirmed : c.confirmed = true) :
    c ∈ b.evictOne.candidates v := by
  rcases b.evictOne_cases with ⟨-, heq⟩ | ⟨w, h⟩
  · rwa [heq]
  · by_cases hv : v = w
    · subst hv
      rw [h.candidates]
      exact Candidate.mem_dropLastUnconfirmed hc hconfirmed
    · rwa [candidates_congr (h.other v hv)]

/-- **Confirmed candidates are never evicted.** -/
theorem mem_evict {v : UInt32} (hc : c ∈ b.candidates v) (hconfirmed : c.confirmed = true) :
    c ∈ b.evict.candidates v :=
  evict_induction (P := fun b' => c ∈ b'.candidates v) hc fun _ hc => mem_evictOne hc hconfirmed

/-! ## Versions that are confirmed -/

/-- **A confirmation that is taken leaves no older candidates.** -/
theorem candidates_observe_older (hash : Bytes → Digest) (h : f.IsNewer b.current) {v : UInt32}
    (hv : v < f.version) : (b.call hash (.observe f)).2.candidates v = [] := by
  have hnote : (b.note (.observe f)).candidates v = [] := by
    rw [note, candidates, getD_insert, if_neg (Ne.symm (UInt32.ne_of_lt hv)),
      getD_filter b.pending v fun v => decide (f.version ≤ v), if_neg (by simpa using hv)]
  rw [call, observe_of_isNewer h]
  rcases adopt_cases (b.note (.observe f)) f with ⟨heq, -⟩ | ⟨b', a, rest, heq, ha⟩ <;> rw [heq]
  · exact hnote
  · have hsub := ha.candidates v
    rw [if_pos hv] at hsub
    exact List.sublist_nil.1 hsub

/-! ## Versions that are observed and offered -/

theorem mem_of_find? (h : b.find? g = some c) :
    c ∈ b.candidates g.version ∧ c.HasDigest g.digest :=
  ⟨List.mem_of_find?_eq_some h, of_decide_eq_true
    (List.find?_some (p := fun c : Candidate => decide (c.HasDigest g.digest)) h)⟩

theorem find?_noted (b : KeyBook) (call : Call) :
    (b.noted call).find? (fun c => c.HasDigest call.fingerprint.digest) =
      some (((b.find? call.fingerprint).map call.change).getD call.fresh) :=
  Candidate.find?_upsert call.fingerprint_change call.hasDigest_fresh

theorem find?_note_observe (b : KeyBook) (g : Fingerprint) :
    (b.note (.observe g)).find? g =
      some (((b.find? g).map (Call.change (.observe g))).getD (Call.fresh (.observe g))) := by
  rw [find?, note, candidates, getD_insert, if_pos rfl]
  exact b.find?_noted (.observe g)

theorem Adopts.agrees {b' : KeyBook} {rest : List Candidate} (ha : Adopts g b b' c rest)
    (h : b.Filed) : b'.current.Agrees g :=
  ⟨ha.version h, ha.current ▸ ha.digest⟩

/-- **A confirmed key is adopted once its bytes arrive**, unless a key as new is there by then. -/
theorem agrees_offer (h : b.Filed) (hnewer : g.IsNewer b.current) (hkey : g.Matches hash key)
    (hc : b.find? g = some c) (hconfirmed : c.confirmed = true) (hnone : c.key = none) :
    (b.call hash (.offer g key)).2.current.Agrees g := by
  have hheld : ((b.find? g).any (·.key.isSome)) = false := by simp [hc, hnone]
  rw [call, offer_of_isNewer hnewer hkey hheld]
  have hfiled := h.note (c := .offer g key) hnewer
  rcases adopt_cases (b.note (.offer g key)) g with ⟨-, hnone⟩ | ⟨b', a, rest, heq, ha⟩
  · have hfind := b.find?_noted (.offer g key)
    rw [Call.fingerprint, hc] at hfind
    have hmem : Call.change (.offer g key) c ∈ (b.note (.offer g key)).candidates g.version := by
      refine mem_evict ?_ hconfirmed
      rw [candidates, getD_insert, if_pos rfl]
      exact List.mem_of_find?_eq_some hfind
    have hdigest : (Call.change (.offer g key) c).HasDigest g.digest := (mem_of_find? hc).2
    exact absurd ⟨hconfirmed, rfl⟩ (hnone _ hmem hdigest)
  · rw [heq]
    exact ha.agrees hfiled

/-- **What is observed and then offered is adopted**, if it is newer than the adopted key. -/
theorem agrees_of_observe_offer (h : b.Orderly) (hnewer : g.IsNewer b.current)
    (hkey : g.Matches hash key) :
    (run hash b [.observe g, .offer g key]).current.Agrees g := by
  have hfiled := h.toFiled.note (c := .observe g) hnewer
  have hcurrent := (note_spec b (.observe g)).1
  change (((b.observe g).2).call hash (.offer g key)).2.current.Agrees g
  rw [observe_of_isNewer hnewer]
  rcases adopt_cases (b.note (.observe g)) g with ⟨heq, hnone⟩ | ⟨b', a, rest, heq, ha⟩ <;> rw [heq]
  · have hfind := find?_note_observe b g
    obtain ⟨c, hc⟩ : ∃ c, ((b.find? g).map (Call.change (.observe g))).getD
        (Call.fresh (.observe g)) = c := ⟨_, rfl⟩
    have hconfirmed : c.confirmed = true := by
      rw [← hc]
      cases b.find? g <;> rfl
    rw [hc] at hfind
    refine agrees_offer hfiled (by rwa [hcurrent]) hkey hfind hconfirmed ?_
    -- a candidate with both halves would have been adopted by the observation
    have hincomplete := hnone c (mem_of_find? hfind).1 (mem_of_find? hfind).2
    exact Option.not_isSome_iff_eq_none.1 fun hsome => hincomplete ⟨hconfirmed, hsome⟩
  · have hagrees := ha.agrees hfiled
    have hold : ¬ (g.IsNewer b'.current ∧ g.Matches hash key) := fun ⟨hlt, _⟩ => by
      rw [Fingerprint.IsNewer, hagrees.1] at hlt
      exact UInt32.lt_irrefl _ hlt
    rw [call, offer, if_pos hold]
    exact hagrees

/-- **How a key older than a confirmed version is adopted.** Once a version newer than the adopted
key was observed, a call adopts an older one only if both its halves came after this observation.
And they suffice, for any version that is newer than the adopted key: the book does not remember
the version that was observed. -/
theorem older_adopted (hash : Bytes → Digest) (before later : List Call) (f : Fingerprint)
    (hnewer : f.IsNewer (run hash empty before).current) :
    let b := run hash empty (before ++ .observe f :: later)
    (∀ next, (b.call hash next).1 = true → (b.call hash next).2.current.version < f.version →
      Observed (later ++ [next]) (b.call hash next).2.current ∧
        ∃ key, (b.call hash next).2.key = some key ∧
          Offered hash (later ++ [next]) (b.call hash next).2.current key) ∧
    ∀ g key, g.IsNewer b.current → g.Matches hash key →
      (run hash b [.observe g, .offer g key]).current.Agrees g ∧
        ∃ key', (run hash b [.observe g, .offer g key]).key = some key' ∧ g.Matches hash key' := by
  intro b
  have hb : b = run hash ((run hash empty before).call hash (.observe f)).2 later :=
    run_append hash empty before (.observe f :: later)
  have hafter := (orderly_empty.run hash before).call hash (.observe f)
  -- The observation leaves no older candidate, so the account of them begins anew.
  have hnone : Accounted hash (· < f.version) []
      ((run hash empty before).call hash (.observe f)).2 :=
    ⟨fun v hv c hc => by simp [candidates_observe_older hash hnewer hv] at hc,
      fun v hv c hc => by simp [candidates_observe_older hash hnewer hv] at hc⟩
  refine ⟨fun next htrue hlt => ?_, fun g key hg hkey => ?_⟩
  · have hcall := ((hnone.run hafter later).call (hafter.run hash later) next).2
    rw [← hb] at hcall
    rcases hcall with ⟨hfalse, -⟩ | ⟨-, -, hadopted⟩
    · simp [hfalse] at htrue
    · exact hadopted hlt
  · have hagrees := agrees_of_observe_offer (orderly_empty.run hash _) hg hkey
    have hrun : run hash b [.observe g, .offer g key] =
        run hash empty ((before ++ .observe f :: later) ++ [.observe g, .offer g key]) :=
      (run_append ..).symm
    have hupholds := upholds_run hash
      ((before ++ .observe f :: later) ++ [.observe g, .offer g key])
    rw [← hrun] at hupholds
    obtain ⟨-, key', hkey', hmatches, -⟩ := hupholds.adopted (hagrees.1 ▸ hkey.1)
    exact ⟨hagrees, key', hkey', hkey.1, hmatches.2.trans hagrees.2⟩

/-- The fingerprint of a key as some version. -/
def sampleFingerprint (version : UInt32) (key : Bytes) : Fingerprint :=
  .ofKey sha256 version .zero key

theorem older_adopted_after_five :
    (sampleFingerprint 5 [1]).IsNewer (run sha256 empty []).current ∧
      (run sha256 (run sha256 empty [.observe (sampleFingerprint 5 [1])])
        [.observe (sampleFingerprint 3 [2]), .offer (sampleFingerprint 3 [2]) [2]]).current.Agrees
          (sampleFingerprint 3 [2]) := by
  have hnewer : (sampleFingerprint 5 [1]).IsNewer (run sha256 empty []).current := by decide +kernel
  obtain ⟨-, hadopts⟩ := older_adopted sha256 [] [] (sampleFingerprint 5 [1]) hnewer
  exact ⟨hnewer, (hadopts (sampleFingerprint 3 [2]) [2] (by decide +kernel) (by decide +kernel)).1⟩

/-- **A book goes back behind a confirmed version.** Version five is confirmed, then version three,
and the key of version three is adopted. -/
theorem superseded_adopted :
    (sampleFingerprint 5 [1]).IsNewer (run sha256 empty []).current ∧
      let b := run sha256 empty
        [.observe (sampleFingerprint 5 [1]), .observe (sampleFingerprint 3 [2])]
      (b.call sha256 (.offer (sampleFingerprint 3 [2]) [2])).1 = true ∧
        (b.call sha256 (.offer (sampleFingerprint 3 [2]) [2])).2.current.version = 3 := by
  decide +kernel

end KeyBook

end GroupKey
