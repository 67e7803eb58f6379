import GroupKey.Proofs.Session.Retention
import Mathlib.Data.Finset.Card

/-!
# Calls in any order

The two halves of a key arrive in either order, and between them come halves of other keys. Some of
these are adopted and make a book give up what is older; some only take up room. As long as the
offered keys are no more than a book has room for, none of this loses a half of the newest key that
is confirmed: whatever the order of the calls, it is the key that the book has in the end.

* `offeredKeys`, `Confined` — the keys that are offered, and the candidates that they leave.
* `unconfirmed_le_card` — the unconfirmed candidates are no more than the offered keys.
* `Retains` — the halves that have arrived of a key are there.
* `adopted_of_calls` — the newest confirmed key is adopted, in whatever order the calls come.
-/

namespace GroupKey.KeyBook

variable {hash : Bytes → Digest} {b : KeyBook} {f : Fingerprint} {c : Call}
  {s : Finset (UInt32 × Digest)}

/-! ## Room for what is offered -/

/-- The version and hash of the key that a call offers. -/
def Call.offered? : Call → Option (UInt32 × Digest)
  | observe _ => none
  | offer f _ => some (f.version, f.digest)

/-- The versions and hashes of the keys that are offered. -/
def offeredKeys (calls : List Call) : Finset (UInt32 × Digest) :=
  (calls.filterMap Call.offered?).toFinset

theorem mem_offeredKeys {calls : List Call} {x : UInt32 × Digest} :
    x ∈ offeredKeys calls ↔ ∃ c ∈ calls, c.offered? = some x := by
  rw [offeredKeys, List.mem_toFinset, List.mem_filterMap]

/-- The candidates that nobody confirmed are of keys from the set. -/
def Confined (s : Finset (UInt32 × Digest)) (b : KeyBook) : Prop :=
  ∀ v, ∀ x ∈ b.candidates v, x.confirmed = false → (v, x.fingerprint.digest) ∈ s

/-- **The candidates that nobody confirmed are no more than the keys that they may be of.** -/
theorem unconfirmed_le_card (h : b.Confined s)
    (hdistinct : ∀ v, (Candidate.digests (b.candidates v)).Nodup) : b.unconfirmed ≤ s.card := by
  -- The candidates are counted by their keys, of which no two are the same and all are in `s`.
  obtain ⟨keys, hkeys⟩ : ∃ keys : UInt32 × List Candidate → List (UInt32 × Digest), keys = fun e =>
      (e.2.filter fun x => !x.confirmed).map fun x => (e.1, x.fingerprint.digest) := ⟨_, rfl⟩
  have hcandidates : ∀ e ∈ b.pending.toList, b.candidates e.1 = e.2 := fun e he => by
    rw [candidates, Std.ExtTreeMap.mem_toList_iff_getElem?_eq_some.1 he, Option.getD_some]
  have hfst : ∀ e, ∀ x ∈ keys e, x.1 = e.1 := fun e x hx => by
    rw [hkeys] at hx
    obtain ⟨_, -, rfl⟩ := List.mem_map.1 hx
    rfl
  have hlength : b.unconfirmed = (b.pending.toList.flatMap keys).length := by
    rw [unconfirmed_eq_sum, values_eq_map_toList, List.length_flatMap, List.map_map, hkeys]
    simp [Function.comp_def, Candidate.unconfirmed, List.countP_eq_length_filter]
  have hnodup : (b.pending.toList.flatMap keys).Nodup := by
    refine List.nodup_flatMap.2 ⟨fun e he => ?_, ?_⟩
    · have hd := hdistinct e.1
      rw [hcandidates e he] at hd
      have hsub : (Candidate.digests (e.2.filter fun x => !x.confirmed)).Nodup :=
        (List.filter_sublist.map _).nodup hd
      rw [hkeys]
      refine List.Nodup.of_map Prod.snd ?_
      rwa [List.map_map]
    · refine b.pending.distinct_keys_toList.imp fun {e e'} hne x hx hx' => hne ?_
      rw [← hfst e x hx, ← hfst e' x hx']
      exact Std.ReflCmp.compare_self
  have hsub : b.pending.toList.flatMap keys ⊆ s.toList := by
    intro x hx
    obtain ⟨e, he, hx⟩ := List.mem_flatMap.1 hx
    rw [hkeys] at hx
    obtain ⟨y, hy, rfl⟩ := List.mem_map.1 hx
    rw [List.mem_filter, ← hcandidates e he] at hy
    exact Finset.mem_toList.2 (h e.1 y hy.1 (by simpa using hy.2))
  rw [hlength, ← Finset.length_toList]
  exact (hnodup.subperm hsub).length_le

theorem Confined.put (h : b.Confined s) (hc : ∀ x, c.offered? = some x → x ∈ s) :
    (b.put c).Confined s := by
  intro v x hx hconfirmed
  rw [candidates_put] at hx
  split at hx
  · next heq =>
    subst heq
    rcases Candidate.mem_upsert hx with rfl | hx | ⟨x₀, hx₀, -, rfl⟩
    · cases c with
      | observe f => simp [Call.fresh] at hconfirmed
      | offer f key => exact hc _ rfl
    · exact h _ x hx hconfirmed
    · cases c with
      | observe f => simp [Call.change] at hconfirmed
      | offer f key => exact h _ x₀ hx₀ hconfirmed
  · exact h v x hx hconfirmed

theorem Filed.distinct_put (h : b.Filed) (c : Call) (v : UInt32) :
    (Candidate.digests ((b.put c).candidates v)).Nodup := by
  rw [candidates_put]
  split
  · exact Candidate.nodup_digests_upsert c.fingerprint_change c.hasDigest_fresh
      (h.distinct c.fingerprint.version)
  · exact h.distinct v

/-- **Where there is room for all that is offered, an offer drops nothing.** -/
theorem Confined.keeps (h : b.Confined s) (hfiled : b.Filed) (hs : s.card ≤ maxUnconfirmed)
    (hc : ∀ x, c.offered? = some x → x ∈ s) {v : UInt32}
    (hobserve : ∀ g, c = .observe g → g.version ≤ v) : b.Keeps c v := by
  cases c with
  | observe g => exact hobserve g rfl
  | offer g key =>
    exact (unconfirmed_le_card (h.put hc) (hfiled.distinct_put _)).trans hs

theorem Confined.call (h : b.Confined s) (hash : Bytes → Digest)
    (hc : ∀ x, c.offered? = some x → x ∈ s) : (b.call hash c).2.Confined s := by
  intro v x hx
  rcases mem_of_mem_call hx with hx | hx
  · exact h v x hx
  · have hx := ((note_spec b c).2.2 v).subset hx
    rw [← candidates_put] at hx
    exact h.put hc v x hx

/-! ## The halves that have arrived -/

/-- Of every call for the key of `f`, the book has the half that it brought. -/
def Retains (hash : Bytes → Digest) (calls : List Call) (f : Fingerprint) (b : KeyBook) : Prop :=
  ∀ c ∈ calls, c.fingerprint.Agrees f → c.IsGenuine hash → (b.find? f).any c.half = true

/-- **A call loses no half of a key newer than what is adopted**, and leaves the half that it brings
of it. -/
theorem Retains.call {calls : List Call} (h : b.Retains hash calls f) (hfiled : b.Filed)
    (hkeeps : b.Keeps c f.version) (hlt : (b.call hash c).2.current.version < f.version) :
    (b.call hash c).2.Retains hash (calls ++ [c]) f := by
  intro c' hc' hagrees hgenuine
  rcases List.mem_append.1 hc' with hc' | hc'
  · exact any_find?_call hfiled hkeeps hlt (fun x => c'.half_change c) (h c' hc' hagrees hgenuine)
  obtain rfl := List.mem_singleton.1 hc'
  have hnewer : c'.fingerprint.IsNewer b.current := by
    rw [Fingerprint.IsNewer, hagrees.1]
    exact UInt32.lt_of_le_of_lt (current_le_call hfiled hash c') hlt
  rw [← hagrees.1] at hkeeps
  rcases half_of_call hfiled hnewer hgenuine hkeeps with ⟨hadopted, -⟩ | hhalf
  · rw [hadopted.1, hagrees.1] at hlt
    exact absurd hlt (UInt32.lt_irrefl _)
  · rwa [← find?_congr hagrees]

/-- As long as no key of its version is adopted, a book has all halves of the key of `f`, if no
later version is confirmed and there is room for all that is offered. -/
theorem retains_run (hash : Bytes → Digest) (hs : s.card ≤ maxUnconfirmed) (calls : List Call)
    (hoffered : ∀ c ∈ calls, ∀ x, c.offered? = some x → x ∈ s)
    (hobserved : ∀ g, .observe g ∈ calls → g.version ≤ f.version) :
    (run hash empty calls).Confined s ∧
      ((run hash empty calls).current.version < f.version →
        (run hash empty calls).Retains hash calls f) := by
  induction calls using List.reverseRecOn with
  | nil =>
    refine ⟨fun v x hx => ?_, fun _ c hc => ?_⟩
    · simp [run, empty, candidates] at hx
    · cases hc
  | append_singleton calls c ih =>
    have hmem : c ∈ calls ++ [c] := List.mem_append_right _ (List.mem_singleton_self c)
    obtain ⟨hconfined, hretains⟩ := ih (fun c hc => hoffered c (List.mem_append_left _ hc))
      fun g hg => hobserved g (List.mem_append_left _ hg)
    have hfiled := (orderly_empty.run hash calls).toFiled
    rw [run_snoc]
    refine ⟨hconfined.call hash (hoffered c hmem), fun hlt => ?_⟩
    refine (hretains ?_).call hfiled (hconfined.keeps hfiled hs (hoffered c hmem) ?_) hlt
    · exact UInt32.lt_of_le_of_lt (current_le_call hfiled hash c) hlt
    · rintro g rfl
      exact hobserved g hmem

theorem Retains.not_lt {calls : List Call} {key : Bytes} (h : b.Retains hash calls f)
    (ho : b.Orderly) (hobserved : Observed calls f) (hoffered : Offered hash calls f key) :
    False := by
  obtain ⟨g, hg, hagrees⟩ := hobserved
  obtain ⟨hmatches, k, hk, hagrees'⟩ := hoffered
  have hconfirmed := h _ hg hagrees.symm trivial
  have hkey := h _ hk hagrees'.symm ⟨hagrees'.1 ▸ hmatches.1, hmatches.2.trans hagrees'.2⟩
  cases hx : b.find? f with
  | none => simp [hx] at hconfirmed
  | some x =>
    rw [hx] at hconfirmed hkey
    exact ho.incomplete f.version x (mem_of_find? hx).1 ⟨hconfirmed, hkey⟩

/-- The version and hash of a book's key, and the bytes that it has for it. -/
def HasAdopted (hash : Bytes → Digest) (f : Fingerprint) (b : KeyBook) : Prop :=
  b.current.Agrees f ∧ ∃ key, b.key = some key ∧ hash key = f.digest

theorem hasAdopted_run (calls : List Call) (hfew : (offeredKeys calls).card ≤ maxUnconfirmed)
    (hpos : 0 < f.version) (hobserved : Observed calls f)
    (hhighest : ∀ g, .observe g ∈ calls → g.version ≤ f.version)
    (hone : ∀ g, .observe g ∈ calls → g.version = f.version → g.digest = f.digest)
    (hoffered : ∃ key, Offered hash calls f key) : (run hash empty calls).HasAdopted hash f := by
  have hupholds := upholds_run hash calls
  have hretains := (retains_run hash hfew calls
    (fun c hc x hx => mem_offeredKeys.2 ⟨c, hc, hx⟩) hhighest).2
  have hnotlt : ¬ (run hash empty calls).current.version < f.version := fun hlt =>
    hoffered.elim fun _ hkey => (hretains hlt).not_lt hupholds.toOrderly hobserved hkey
  have hle : f.version ≤ (run hash empty calls).current.version := UInt32.not_lt.1 hnotlt
  obtain ⟨⟨g, hg, hagrees⟩, key, hkey, hmatches, -⟩ :=
    hupholds.adopted (UInt32.lt_of_lt_of_le hpos hle)
  have hversion : g.version = f.version :=
    UInt32.le_antisymm (hhighest g hg) (hagrees.1 ▸ hle)
  have hadopted : (run hash empty calls).current.Agrees f :=
    hagrees.trans ⟨hversion, hone g hg hversion⟩
  exact ⟨hadopted, key, hkey, hmatches.2.trans hadopted.2⟩

/-- **The newest confirmed key is adopted, in whatever order the calls come**: if its bytes were
offered, if no other key of its version was confirmed, and if no more keys were offered than a book
has room for. -/
theorem adopted_of_calls (hash : Bytes → Digest) (calls : List Call) (f : Fingerprint)
    (hfew : (offeredKeys calls).card ≤ maxUnconfirmed) (hpos : 0 < f.version)
    (hobserved : Observed calls f)
    (hhighest : ∀ g, .observe g ∈ calls → g.version ≤ f.version)
    (hone : ∀ g, .observe g ∈ calls → g.version = f.version → g.digest = f.digest)
    (hoffered : ∃ key, Offered hash calls f key) :
    (run hash empty calls).HasAdopted hash f ∧
      ∀ order, order.Perm calls → (run hash empty order).HasAdopted hash f := by
  have hany : ∀ order, order.Perm calls → (run hash empty order).HasAdopted hash f := by
    intro order hperm
    have hkeys : offeredKeys order = offeredKeys calls :=
      List.toFinset_eq_of_perm _ _ (hperm.filterMap Call.offered?)
    obtain ⟨g, hg, hagrees⟩ := hobserved
    obtain ⟨key, hmatches, k, hk, hagrees'⟩ := hoffered
    exact hasAdopted_run order (hkeys ▸ hfew) hpos ⟨g, hperm.mem_iff.2 hg, hagrees⟩
      (fun g hg => hhighest g (hperm.mem_iff.1 hg)) (fun g hg => hone g (hperm.mem_iff.1 hg))
      ⟨key, hmatches, k, hperm.mem_iff.2 hk, hagrees'⟩
  exact ⟨hany calls (.refl calls), hany⟩

/-- The key of version three comes first and is confirmed last. Between the two, version one is
adopted, version two is confirmed, and another key is offered for version three. -/
def sampleCalls : List Call :=
  [.offer (sampleFingerprint 3 [7]) [7], .observe (sampleFingerprint 1 [1]),
    .offer (sampleFingerprint 1 [1]) [1], .offer (sampleFingerprint 3 [8]) [8],
    .observe (sampleFingerprint 2 [2]), .observe (sampleFingerprint 3 [7])]

theorem adopted_of_sampleCalls :
    (run sha256 empty (sampleCalls.take 3)).current.version = 1 ∧
      (run sha256 empty sampleCalls).HasAdopted sha256 (sampleFingerprint 3 [7]) ∧
      (run sha256 empty sampleCalls.reverse).HasAdopted sha256 (sampleFingerprint 3 [7]) := by
  have hobserved : ∀ g, .observe g ∈ sampleCalls → g = sampleFingerprint 1 [1] ∨
      g = sampleFingerprint 2 [2] ∨ g = sampleFingerprint 3 [7] := by
    simp [sampleCalls]
  obtain ⟨hrun, hany⟩ := adopted_of_calls sha256 sampleCalls (sampleFingerprint 3 [7])
    (by decide +kernel) (by decide +kernel)
    ⟨sampleFingerprint 3 [7], by simp [sampleCalls], .refl _⟩
    (fun g hg => by rcases hobserved g hg with rfl | rfl | rfl <;> decide +kernel)
    (fun g hg => by rcases hobserved g hg with rfl | rfl | rfl <;> decide +kernel)
    ⟨[7], by decide +kernel, sampleFingerprint 3 [7], by simp [sampleCalls], .refl _⟩
  exact ⟨by decide +kernel, hrun, hany _ (List.reverse_perm _)⟩

end GroupKey.KeyBook
