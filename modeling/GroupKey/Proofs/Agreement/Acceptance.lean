import GroupKey.Proofs.Agreement.Setup

/-!
# What an accepted join proof looks like

The check of a join proof looks at its shape before it draws weights, and gives up at the first
absent entry. So an accepted proof names a tier and a published key, and lacks the entry of its
own slot and no other, whatever weights were drawn.

* `Contribution` — a join proof with the public key that it was made with.
* `JoinProof.Fits` — the shape of an accepted proof.
* `JoinProof.fits_of_check` — every accepted proof has it; `fits_of_tier`, for a tier that is known.
-/

namespace GroupKey

/-- A join proof, and the public key that it is checked with. -/
structure Contribution (S : Suite) where
  proof : JoinProof S
  key : PublicKey S

variable {S : Suite} {ρ : Type} [Generator ρ]

namespace Contribution

/-- The slot that was taken. -/
def slot (c : Contribution S) : Nat := c.proof.slot.toNat

/-- The joiner's combined public key. -/
def combined (c : Contribution S) : S.G1 := c.key.combined (c.proof.challenge c.key)

/-- The contribution to the share of slot `j`. -/
def entry (c : Contribution S) (j : Nat) : S.G1 := (c.proof.entry? j).getD 0

/-- What the encryption key gains when the joiner takes the place of its slot's pseudo member. -/
def change (t : SizeTier S) (c : Contribution S) : KeyChange S :=
  ⟨c.proof.u - t.ephemeral c.slot, c.combined - t.combined c.slot⟩

end Contribution

theorem JoinProof.keyChange_eq_ok {p : Parameters S} {directory : Directory S} {proof : JoinProof S}
    {t : SizeTier S} (htier : p.tier proof.tier = .ok t) (hslot : proof.slot.toNat < t.scale)
    {key : PublicKey S} (hkey : directory.get? proof.keyId = some key) :
    proof.keyChange p directory = .ok (Contribution.change t ⟨proof, key⟩) := by
  obtain ⟨m, hm, hu, hcombined⟩ := SizeTier.member_eq_ok hslot
  simp only [JoinProof.keyChange, hkey, Parameters.keyChange, htier, hm, hu, hcombined]
  rfl

namespace JoinProof

/-- The proof lies within a tier of the given scale and lacks the entry of its own slot only. -/
structure Fits (proof : JoinProof S) (scale : Nat) : Prop where
  length_z : proof.z.length = scale
  slot_lt : proof.slot.toNat < scale
  entry?_self : proof.entry? proof.slot.toNat = none
  entry?_isSome : ∀ j < scale, j ≠ proof.slot.toNat → (proof.entry? j).isSome

theorem Fits.lt_of_entry? {proof : JoinProof S} {scale : Nat} (h : proof.Fits scale) {j : Nat}
    {z : S.G1} (hz : proof.entry? j = some z) : j < scale := by
  rw [← h.length_z]
  refine Nat.lt_of_not_le fun hge => ?_
  simp [JoinProof.entry?, List.getElem?_eq_none hge] at hz

/-- Weights are drawn to the end only if no entry is absent but that of the slot. -/
theorem isSome_of_drawBatch {p : Parameters S} {slot : Nat} {zs : List (Option S.G1)} {j : Nat}
    {b b' : Batch S} {r r' : ρ} (h : drawBatch p slot j zs b r = (some b', r')) :
    ∀ k < zs.length, j + k ≠ slot → (zs[k]?).join.isSome := by
  induction zs generalizing j b r with
  | nil => intro k hk; simp at hk
  | cons z zs ih =>
    unfold drawBatch at h
    -- What is left to draw starts one slot later.
    have shift : ∀ {c : Batch S} {s : ρ}, drawBatch p slot (j + 1) zs c s = (some b', r') →
        ∀ k < zs.length, j + (k + 1) ≠ slot → (zs[k]?).join.isSome := by
      intro c s hd k hk hne
      exact ih hd k hk (by omega)
    intro k hk hne
    cases k with
    | zero =>
      rw [if_neg (by simpa using hne)] at h
      cases z with
      | none => simp at h
      | some z => rfl
    | succ k =>
      rw [List.getElem?_cons_succ]
      by_cases hj : j = slot
      · rw [if_pos hj] at h
        exact shift h k (by simpa using hk) hne
      · rw [if_neg hj] at h
        cases z with
        | none => simp at h
        | some z => exact shift h k (by simpa using hk) hne

/-- **Every accepted proof fits its tier and was made with a published key.** -/
theorem fits_of_check {p : Parameters S} {directory : Directory S} {proof : JoinProof S} {r : ρ}
    (h : (proof.check p directory r).1 = true) :
    ∃ t key, p.tier proof.tier = .ok t ∧ proof.Fits t.scale ∧
      directory.get? proof.keyId = some key := by
  unfold check at h
  cases hs : p.scale proof.tier with
  | error e => simp [hs] at h
  | ok scale =>
    obtain ⟨t, ht, rfl⟩ := Parameters.scale_eq_ok.1 hs
    by_cases hshape : proof.HasShape t.scale
    · cases hk : directory.get? proof.keyId with
      | none => simp [hs, hshape, hk] at h
      | some key =>
        rcases hd : drawBatch p proof.slot.toNat 0 proof.z .zero r with ⟨b, r'⟩
        cases b with
        | none => simp [hs, hshape, hk, hd] at h
        | some b =>
          obtain ⟨hlen, hslot, hself⟩ := hshape
          refine ⟨t, key, ht, ⟨hlen, hslot, hself, ?_⟩, rfl⟩
          intro j hj hne
          exact isSome_of_drawBatch hd j (by rw [hlen]; exact hj) (by omega)
    · simp [hs, hshape] at h

theorem fits_of_tier {p : Parameters S} {directory : Directory S} {proof : JoinProof S} {r : ρ}
    {t : SizeTier S} (ht : p.tier proof.tier = .ok t) (h : (proof.check p directory r).1 = true) :
    ∃ key, proof.Fits t.scale ∧ directory.get? proof.keyId = some key := by
  obtain ⟨t', key, ht', hfits, hkey⟩ := fits_of_check h
  obtain rfl : t = t' := Except.ok.inj (ht.symm.trans ht')
  exact ⟨key, hfits, hkey⟩

end JoinProof

end GroupKey
