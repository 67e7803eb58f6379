import GroupKey.Agreement.Broadcast
import GroupKey.Proofs.Agreement.Setup
import GroupKey.Proofs.Suite.Laws
import Mathlib.Algebra.BigOperators.Group.Finset.Basic
import Mathlib.Tactic.Abel

/-!
# Keys that open each other's ciphertexts

Everything that the key agreement adds up satisfies one equation of pairings. A contribution to the
share of a slot carries the contributor's combined key and its ephemeral key; a decryption key opens
an encryption key when the same holds of the two sums. Bilinearity moves the equation from the parts
to the sums, and from there to the mask of a ciphertext.

* `Carries` — the equation of one contribution.
* `Opens` — the equation of a decryption key.
* `Opens.replace` — it survives that one contributor takes the place of another.
* `decryptWith_encrypt` — a key that opens decrypts every message.
-/

namespace GroupKey

variable {S : Suite} {ρ : Type}

/-! ## Masks -/

theorem Bytes.xor_xor_cancel {data mask : Bytes} (h : data.length ≤ mask.length) :
    Bytes.xor (Bytes.xor data mask) mask = data := by
  induction data generalizing mask with
  | nil => rfl
  | cons d data ih =>
    cases mask with
    | nil => simp at h
    | cons m mask =>
      show (d ^^^ m ^^^ m) :: Bytes.xor (Bytes.xor data mask) mask = d :: data
      rw [ih (by simpa using h), UInt8.xor_assoc, UInt8.xor_self, UInt8.xor_zero]

theorem Suite.length_keystream (x : S.GT) (len : Nat) : (S.keystream x len).length = len := by
  have hblock : ∀ i : Nat, (S.keystreamBlock (S.textT x) (.ofNat i)).length = 32 :=
    fun i => Digest.length_bytes _
  have hblocks : ∀ n : Nat, ((List.range n).flatMap fun i =>
      S.keystreamBlock (S.textT x) (.ofNat i)).length = n * 32 := by
    intro n
    rw [List.length_flatMap]
    simp [hblock]
  rw [keystream, List.length_take, hblocks]
  omega

/-! ## The equation of a contribution -/

namespace Parameters

/-- A contribution to the share of slot `j` carries a combined key and an ephemeral key. -/
def Carries (p : Parameters S) (z : S.G1) (j : Nat) (combined : S.G1) (u : S.G2) : Prop :=
  S.pair z p.g2 = S.pair combined p.g0G2 + S.pair (p.slotBase j) u

instance (p : Parameters S) (z : S.G1) (j : Nat) (combined : S.G1) (u : S.G2) :
    Decidable (p.Carries z j combined u) := inferInstanceAs (Decidable (_ = _))

/-- A decryption key of slot `j` opens what is encrypted to `key`. -/
def Opens (p : Parameters S) (d : S.G1) (j : Nat) (key : EncryptionKey S) : Prop :=
  p.Carries d j key.mu key.lambda

variable {p : Parameters S} {secrets : SlotSecrets S}

theorem getElem?_h {j : Nat} (h : j < p.h.length) : p.h[j]? = some (p.slotBase j) := by
  rw [slotBase, List.getElem?_eq_getElem h]
  rfl

variable [S.BilinearPairing]

theorem carries_zero (j : Nat) : p.Carries 0 j 0 0 := by
  unfold Carries
  rw [Suite.pair_zero_left, Suite.pair_zero_left, Suite.pair_zero_right, add_zero]

theorem Carries.add {z z' c c' : S.G1} {j : Nat} {u u' : S.G2} (h : p.Carries z j c u)
    (h' : p.Carries z' j c' u') : p.Carries (z + z') j (c + c') (u + u') := by
  unfold Carries at h h' ⊢
  rw [Suite.pair_add_left, Suite.pair_add_left, Suite.pair_add_right, h, h']
  abel

theorem Carries.sub {z z' c c' : S.G1} {j : Nat} {u u' : S.G2} (h : p.Carries z j c u)
    (h' : p.Carries z' j c' u') : p.Carries (z - z') j (c - c') (u - u') := by
  unfold Carries at h h' ⊢
  rw [Suite.pair_sub_left, Suite.pair_sub_left, Suite.pair_sub_right, h, h']
  abel

theorem carries_sum {ι : Type} (s : Finset ι) (z c : ι → S.G1) (u : ι → S.G2) {j : Nat}
    (h : ∀ i ∈ s, p.Carries (z i) j (c i) (u i)) :
    p.Carries (∑ i ∈ s, z i) j (∑ i ∈ s, c i) (∑ i ∈ s, u i) := by
  classical
  induction s using Finset.induction_on with
  | empty => exact carries_zero j
  | insert i s hi ih =>
    rw [Finset.sum_insert hi, Finset.sum_insert hi, Finset.sum_insert hi]
    exact (h i (Finset.mem_insert_self i s)).add
      (ih fun k hk => h k (Finset.mem_insert_of_mem hk))

/-- **A decryption key follows its encryption key** when one contributor takes the place of another
and it is told the difference of their contributions. -/
theorem Opens.replace {d z z' c c' : S.G1} {j : Nat} {u u' : S.G2} {key : EncryptionKey S}
    (h : p.Opens d j key) (hin : p.Carries z' j c' u') (hout : p.Carries z j c u) :
    p.Opens (d + (z' - z)) j (key.apply ⟨u' - u, c' - c⟩) :=
  Carries.add h (hin.sub hout)

/-! ### Rows made from exponents -/

theorem combined_publicKey (secret : SecretKey S) (v : S.Scalar) :
    secret.publicKey.combined v = secret.exponent v • S.base1 := by
  show secret.x1 • S.base1 + v • secret.x2 • S.base1 = (secret.x1 + secret.x2 * v) • S.base1
  rw [add_smul, mul_comm, mul_smul]

theorem IsSetup.carries_entries (hp : p.IsSetup secrets) {scale j : Nat} (hj : j < scale)
    (hscale : scale ≤ p.h.length) (secret : SecretKey S) (v w : S.Scalar) :
    ∃ z, (p.entries scale (secret.exponent v) w)[j]? = some z ∧
      p.Carries z j (secret.publicKey.combined v) (w • S.base2) := by
  obtain ⟨e, hg1, hg2⟩ := hp.exponent
  refine ⟨secret.exponent v • p.g0G1 + w • p.slotBase j, ?_, ?_⟩
  · rw [getElem?_entries p _ w hj, getElem?_h (Nat.lt_of_lt_of_le hj hscale)]
    rfl
  · unfold Carries
    rw [combined_publicKey, hp.g2, hg1, hg2, Suite.pair_add_left]
    simp only [Suite.pair_smul_left, Suite.pair_smul_right]
    rw [smul_comm]

/-- Every pseudo member of a tier contributes to all shares, and to that of its own slot by its
unpublished entry. -/
theorem IsSetup.carries_row (hp : p.IsSetup secrets) {number : UInt16} {t : SizeTier S}
    (ht : p.tier number = .ok t) {i : Nat} (hi : i < t.scale) :
    (∀ j < t.scale, i ≠ j → p.Carries (t.entry i j) j (t.combined i) (t.ephemeral i)) ∧
      ∃ diagonal, ((secrets.diagonals[number.toNat]?).bind fun entries => entries[i]?) =
          some diagonal ∧
        p.Carries diagonal i (t.combined i) (t.ephemeral i) := by
  rw [tier_eq_ok] at ht
  obtain ⟨secret, w, hm, hd⟩ := hp.row _ t i ht hi
  have hscale := (hp.scale _ t ht).2
  have hcombined : t.combined i = (pseudoMember p t.scale i secret w).1.combined := by
    rw [SizeTier.combined, hm]
    rfl
  have hephemeral : t.ephemeral i = w • S.base2 := by
    rw [SizeTier.ephemeral, hm]
    rfl
  rw [hcombined, hephemeral]
  constructor
  · intro j hj hij
    obtain ⟨z, hz, hcarries⟩ := hp.carries_entries hj hscale secret
      (S.challenge [] secret.publicKey (w • S.base2)) w
    have hentry : t.entry i j = z := by
      rw [SizeTier.entry, SizeTier.entry?, hm, Option.bind_some, pseudoMember,
        getElem?_withoutSlot, if_neg (Ne.symm hij), hz, Option.getD_some]
    rw [hentry]
    exact hcarries
  · obtain ⟨z, hz, hcarries⟩ := hp.carries_entries hi hscale secret
      (S.challenge [] secret.publicKey (w • S.base2)) w
    refine ⟨z, ?_, hcarries⟩
    rw [hd, pseudoMember, hz, Option.getD_some]

/-! ### Ciphertexts -/

/-- **A decryption key that opens an encryption key decrypts every message to it.** -/
theorem IsSetup.decryptWith_encrypt [Generator ρ] (hp : p.IsSetup secrets) {d : S.G1}
    {slot : UInt32} (hslot : slot.toNat < p.h.length) {key : EncryptionKey S}
    (h : p.Opens d slot.toNat key) (message : Bytes) {keys : List (EncryptionKey S)} {i : Nat}
    (hi : keys[i]? = some key) (r : ρ) :
    (Ciphertext.encrypt p message keys r).1.decryptWith p d slot i = .ok message := by
  obtain ⟨omega, r', hr⟩ : ∃ omega r', S.randomScalar r = (omega, r') := ⟨_, _, rfl⟩
  have hpart : (Ciphertext.encrypt p message keys r).1.parts[i]? =
      some (Ciphertext.partFor p message omega key) := by
    rw [Ciphertext.encrypt, hr]
    simp [hi]
  -- The recipient computes the element of the target group that masked the message.
  have hshared : S.pair d (omega • S.base2) - S.pair (p.slotBase slot.toNat) (omega • key.lambda) =
      S.pair (omega • key.mu) p.g0G2 := by
    have h' : S.pair d S.base2 =
        S.pair key.mu p.g0G2 + S.pair (p.slotBase slot.toNat) key.lambda := by
      rw [← hp.g2]
      exact h
    rw [Suite.pair_smul_right, Suite.pair_smul_right, Suite.pair_smul_left, h', smul_add,
      add_sub_cancel_right]
  have hc1 : (Ciphertext.encrypt p message keys r).1.c1 = omega • S.base2 := by
    rw [Ciphertext.encrypt, hr]
  simp only [Ciphertext.decryptWith, hpart, getElem?_h hslot, hc1, Ciphertext.partFor, hshared,
    Bytes.length_xor, Suite.length_keystream, Nat.min_self]
  rw [Bytes.xor_xor_cancel (by rw [Suite.length_keystream])]

end Parameters

end GroupKey
