import GroupKey.Proofs.Session.Waiting

/-!
# What an adoption gives up

An adoption gives up all candidates up to the adopted version, and keeps those from the next version
on. So what is pending is newer than the adopted key, and once the highest version of all is adopted
nothing is pending. But the last version has no next one. When it is adopted, its own list stays,
with the competing candidates or empty, and from then on it stays for ever.

* `mem_pending_call` — only a call for a version makes it pending.
* `IsPruned` — what is pending is newer than the adopted key, and no list is empty.
* `newer_call` — an adoption keeps only newer versions, if there is a next one.
* `IsLast` — what is left when the last version is adopted.
* `pruned_iff_of_calls` — the book after any calls.
* `last_version_stays` — the last version is adopted, and an empty list is left.
-/

namespace GroupKey.KeyBook

variable {hash : Bytes → Digest} {b b' : KeyBook} {f : Fingerprint} {c : Call} {v : UInt32}
  {calls : List Call}

/-! ## The versions that are pending -/

theorem mem_filter_iff (pending : Std.ExtTreeMap UInt32 (List Candidate)) (keep : UInt32 → Bool)
    (v : UInt32) : v ∈ pending.filter (fun w _ => keep w) ↔ keep v = true ∧ v ∈ pending := by
  rw [Std.ExtTreeMap.mem_iff_isSome_getElem?, Std.ExtTreeMap.mem_iff_isSome_getElem?,
    Std.ExtTreeMap.getElem?_filter']
  cases pending[v]? <;> simp

theorem mem_pending_put : v ∈ (b.put c).pending ↔ c.fingerprint.version = v ∨ v ∈ b.pending := by
  rw [put, Std.ExtTreeMap.mem_insert, Std.LawfulEqCmp.compare_eq_iff_eq]

theorem mem_pending_of_evictOne (h : v ∈ b.evictOne.pending) : v ∈ b.pending := by
  rcases b.evictOne_cases with ⟨-, heq⟩ | ⟨w, hdrops⟩
  · rwa [heq] at h
  · by_cases hv : v = w
    · refine mem_pending_of_candidates fun hnil => ?_
      have hany := hdrops.unconfirmed
      rw [← hv, hnil] at hany
      cases hany
    · rw [Std.ExtTreeMap.mem_iff_isSome_getElem?] at h ⊢
      rwa [← hdrops.other v hv]

theorem mem_pending_note (h : v ∈ (b.note c).pending) :
    c.fingerprint.version = v ∨ v ∈ b.pending := by
  cases c with
  | observe f =>
    rw [pending_note_observe, mem_filter_iff _ fun w => decide (f.version ≤ w)] at h
    exact mem_pending_put.1 h.2
  | offer f key =>
    have hput : v ∈ (b.put (.offer f key)).pending :=
      evict_induction (P := fun b' => v ∈ b'.pending → v ∈ (b.put (.offer f key)).pending) id
        (fun b' ih hv => ih (mem_pending_of_evictOne hv)) h
    exact mem_pending_put.1 hput

/-! ## What is kept -/

/-- **What an adoption keeps**: the versions from the next one on, where its own is the next of the
last version. -/
theorem pending_of_adopt (h : (b.adopt f).1 = true) : ∃ rest, (b.adopt f).2.pending =
    (b.pending.insert f.version rest).filter fun w _ =>
      decide (UInt32.ofNat (min (f.version.toNat + 1) (UInt32.size - 1)) ≤ w) := by
  cases hi : (b.candidates f.version).findIdx?
    (fun c => c.HasDigest f.digest && c.confirmed && c.key.isSome) with
  | none =>
    simp only [adopt, hi] at h
    cases h
  | some i =>
    have hlt := (List.findIdx?_eq_some_iff_getElem.1 hi).1
    refine ⟨Candidate.swapRemove i (b.candidates f.version), ?_⟩
    simp only [adopt, hi, List.getElem?_eq_getElem hlt]

theorem mem_pending_of_adopt (h : b.adopt f = (true, b')) (hv : v ∈ b'.pending) :
    UInt32.ofNat (min (f.version.toNat + 1) (UInt32.size - 1)) ≤ v ∧
      (f.version = v ∨ v ∈ b.pending) := by
  obtain ⟨rest, hpending⟩ := pending_of_adopt (congrArg Prod.fst h)
  rw [h] at hpending
  rw [hpending, mem_filter_iff _ fun w =>
      decide (UInt32.ofNat (min (f.version.toNat + 1) (UInt32.size - 1)) ≤ w),
    decide_eq_true_eq, Std.ExtTreeMap.mem_insert, Std.LawfulEqCmp.compare_eq_iff_eq] at hv
  exact hv

theorem mem_pending_call (h : v ∈ (b.call hash c).2.pending) :
    c.fingerprint.version = v ∨ v ∈ b.pending := by
  rcases call_cases hash b c with heq | ⟨-, -, heq⟩ <;> rw [heq] at h
  · exact .inr h
  · rcases adopt_cases (b.note c) c.fingerprint with ⟨hadopt, -⟩ | ⟨b', a, rest, hadopt, -⟩ <;>
      rw [hadopt] at h
    · exact mem_pending_note h
    · exact (mem_pending_of_adopt hadopt h).2.elim .inl mem_pending_note

theorem exists_of_mem_pending (h : v ∈ (run hash empty calls).pending) :
    ∃ c ∈ calls, c.fingerprint.version = v := by
  induction calls using List.reverseRecOn with
  | nil => simp [run, empty] at h
  | append_singleton calls c ih =>
    rw [run_snoc] at h
    rcases mem_pending_call h with hv | h
    · exact ⟨c, by simp, hv⟩
    · obtain ⟨c', hc', hv⟩ := ih h
      exact ⟨c', List.mem_append_left _ hc', hv⟩

/-- No version has an empty list of candidates, and all are newer than the adopted key. -/
structure IsPruned (b : KeyBook) : Prop where
  filled : b.IsFilled
  newer : ∀ v ∈ b.pending, b.current.version < v

/-- **An adoption keeps only newer versions**, if there is a next one. -/
theorem newer_call (h : ∀ v ∈ b.pending, b.current.version < v) (hfiled : b.Filed)
    (hlast : (b.call hash c).2.current.version.toNat + 1 < UInt32.size) :
    ∀ v ∈ (b.call hash c).2.pending, (b.call hash c).2.current.version < v := by
  intro v hv
  rcases call_cases hash b c with heq | ⟨hnewer, -, heq⟩ <;> rw [heq] at hv hlast ⊢
  · exact h v hv
  · rcases adopt_cases (b.note c) c.fingerprint with ⟨hadopt, -⟩ | ⟨b', a, rest, hadopt, ha⟩
    · rw [hadopt] at hv ⊢
      rw [(note_spec b c).1]
      exact (mem_pending_note hv).elim (fun heq => heq ▸ hnewer) (h v)
    · have hversion : b'.current.version = c.fingerprint.version := ha.version (hfiled.note hnewer)
      rw [hadopt] at hv
      have hle := (mem_pending_of_adopt hadopt hv).1
      rw [hadopt, hversion] at hlast ⊢
      rw [UInt32.le_iff_toNat_le, UInt32.toNat_ofNat_of_lt' (by omega)] at hle
      rw [UInt32.lt_iff_toNat_lt]
      omega

/-- **After any calls what is pending is newer**, as long as there is a next version. -/
theorem isPruned_run (hash : Bytes → Digest) (calls : List Call)
    (hlast : (run hash empty calls).current.version.toNat + 1 < UInt32.size) :
    (run hash empty calls).IsPruned := by
  refine ⟨(queued_run hash calls hlast).filled, ?_⟩
  induction calls using List.reverseRecOn with
  | nil => exact fun v hv => by simp [run, empty] at hv
  | append_singleton calls c ih =>
    have hfiled := (orderly_empty.run hash calls).toFiled
    have hle := UInt32.le_iff_toNat_le.1 (current_le_call hfiled hash c)
    rw [run_snoc] at hlast ⊢
    exact newer_call (ih (by omega)) hfiled hlast

/-! ## The last version -/

/-- The last version is adopted, and a list of candidates is left of it, and nothing else. -/
def IsLast (b : KeyBook) : Prop :=
  ∃ cs, b.pending = (∅ : Std.ExtTreeMap UInt32 (List Candidate)).insert b.current.version cs

/-- **The list of the last version stays when it is adopted.** -/
theorem isLast_call (h : ¬b.current.version.toNat + 1 < UInt32.size → b.IsLast) (hfiled : b.Filed)
    (hlast : ¬(b.call hash c).2.current.version.toNat + 1 < UInt32.size) :
    (b.call hash c).2.IsLast := by
  have hsize : UInt32.size = 4294967296 := rfl
  rcases call_cases hash b c with heq | ⟨hnewer, -, heq⟩ <;> rw [heq] at hlast ⊢
  · exact h hlast
  -- Nothing is newer than the last version, so it was not adopted before.
  have hold : b.current.version.toNat < c.fingerprint.version.toNat := hnewer
  have hbound := c.fingerprint.version.toNat_lt
  rcases adopt_cases (b.note c) c.fingerprint with ⟨hadopt, -⟩ | ⟨b', a, rest, hadopt, ha⟩
  · rw [hadopt, (note_spec b c).1] at hlast
    omega
  · have hversion : b'.current.version = c.fingerprint.version := ha.version (hfiled.note hnewer)
    obtain ⟨rest, hpending⟩ := pending_of_adopt (congrArg Prod.fst hadopt)
    rw [hadopt, hversion] at hlast
    refine ⟨rest, ?_⟩
    rw [hpending, hadopt, hversion]
    refine Std.ExtTreeMap.ext_getElem? fun w => ?_
    have hkeep :
        decide (UInt32.ofNat (min (c.fingerprint.version.toNat + 1) (UInt32.size - 1)) ≤ w) =
          decide (c.fingerprint.version = w) := by
      have hw := w.toNat_lt
      rw [decide_eq_decide, UInt32.le_iff_toNat_le, UInt32.toNat_ofNat_of_lt' (by omega),
        ← UInt32.toNat_inj]
      omega
    rw [Std.ExtTreeMap.getElem?_filter', hkeep]
    by_cases hw : c.fingerprint.version = w
    · rw [← hw, Std.ExtTreeMap.getElem?_insert_self, Std.ExtTreeMap.getElem?_insert_self]
      simp
    · rw [getElem?_insert_of_ne hw, getElem?_insert_of_ne hw]
      simp [hw]

theorem isLast_run (hash : Bytes → Digest) (calls : List Call)
    (hlast : ¬(run hash empty calls).current.version.toNat + 1 < UInt32.size) :
    (run hash empty calls).IsLast := by
  induction calls using List.reverseRecOn with
  | nil =>
    have hnext : empty.current.version.toNat + 1 < UInt32.size := by decide
    exact absurd hnext hlast
  | append_singleton calls c ih =>
    rw [run_snoc] at hlast ⊢
    exact isLast_call ih (orderly_empty.run hash calls).toFiled hlast

/-- **An adoption prunes completely just if there is a next version.** After any calls, no list of
candidates is empty and all that is pending is newer than the adopted key, if and only if this key
is not of the last version. As long as it is not, nothing is pending once it is of the highest
version of all calls. When it is of the last version, this one version is pending. -/
theorem pruned_iff_of_calls (hash : Bytes → Digest) (calls : List Call) :
    let b := run hash empty calls
    (b.IsPruned ↔ b.current.version.toNat + 1 < UInt32.size) ∧
      (b.current.version.toNat + 1 < UInt32.size →
        (∀ c ∈ calls, c.fingerprint.version ≤ b.current.version) → b.pendingVersions = 0) ∧
      (¬b.current.version.toNat + 1 < UInt32.size →
        b.current.version ∈ b.pending ∧ b.pendingVersions = 1) := by
  intro b
  have hleft (hlast : ¬b.current.version.toNat + 1 < UInt32.size) :
      b.current.version ∈ b.pending ∧ b.pendingVersions = 1 := by
    obtain ⟨cs, hcs⟩ := isLast_run hash calls hlast
    rw [pendingVersions, hcs]
    exact ⟨Std.ExtTreeMap.mem_insert_self, by simp [Std.ExtTreeMap.size_insert]⟩
  refine ⟨⟨fun hpruned => ?_, isPruned_run hash calls⟩, fun hlast hhighest => ?_, hleft⟩
  · by_contra hlast
    exact UInt32.lt_irrefl _ (hpruned.newer _ (hleft hlast).1)
  · have hnone : b.pending = ∅ := Std.ExtTreeMap.eq_empty_iff_forall_not_mem.2 fun v hv => by
      obtain ⟨c, hc, rfl⟩ := exists_of_mem_pending hv
      have hnewer := (isPruned_run hash calls hlast).newer _ hv
      exact UInt32.lt_irrefl _ (UInt32.lt_of_lt_of_le hnewer (hhighest c hc))
    rw [pendingVersions, hnone, Std.ExtTreeMap.size_empty]

/-- Two keys of version three are offered after one of version one, and the first is confirmed. -/
def competingCalls : List Call :=
  [.offer (sampleFingerprint 1 [1]) [1], .offer (sampleFingerprint 3 [2]) [2],
    .offer (sampleFingerprint 3 [3]) [3], .observe (sampleFingerprint 3 [2])]

/-- Then it is adopted, and nothing is pending. -/
theorem pruned_iff_of_competing_calls :
    (run sha256 empty competingCalls).current = sampleFingerprint 3 [2] ∧
      (run sha256 empty competingCalls).IsPruned ∧
      (run sha256 empty competingCalls).pendingVersions = 0 := by
  have hcurrent : (run sha256 empty competingCalls).current = sampleFingerprint 3 [2] := by
    decide +kernel
  obtain ⟨hpruned, hnone, -⟩ := pruned_iff_of_calls sha256 competingCalls
  rw [hcurrent] at hpruned hnone
  have hlast : (sampleFingerprint 3 [2]).version.toNat + 1 < UInt32.size := by decide +kernel
  have hhighest : ∀ c ∈ competingCalls,
      c.fingerprint.version ≤ (sampleFingerprint 3 [2]).version := by
    simp [competingCalls, Call.fingerprint, sampleFingerprint, Fingerprint.ofKey]
  exact ⟨hcurrent, hpruned.2 hlast, hnone hlast hhighest⟩

/-- **The last version stays pending.** A key of the last version is offered and confirmed: it is
adopted, and an empty list of candidates is left of its version. -/
theorem last_version_stays :
    let f := sampleFingerprint 4294967295 [1]
    let b := run sha256 empty [.offer f [1]]
    (b.call sha256 (.observe f)).1 = true ∧ (b.call sha256 (.observe f)).2.current = f ∧
      (b.call sha256 (.observe f)).2.pending[f.version]? = some [] ∧
      (b.call sha256 (.observe f)).2.pendingVersions = 1 := by
  decide +kernel

end GroupKey.KeyBook
