import GroupKey.Proofs.Agreement.Acceptance
import GroupKey.Proofs.Suite.Exponents
import Mathlib.Data.Int.GCD
import Mathlib.Data.Nat.Prime.Basic
import Mathlib.Tactic.Abel

/-!
# What a batched check compares

A join proof claims one equation for every slot but its own. The check does not test them one after
the other: it draws a weight for each and compares three weighted sums by pairings. By bilinearity
that is the same as weighing how far each entry is from its equation, so the sums agree if and only
if the weighted deviations cancel. They do so for all weights if there are none; and if one entry is
wrong, then whatever the other weights are, at most one weight of it hides that.

* `deviation` — how far an entry is from what it ought to be.
* `drawBatch_eq` — the weights that are drawn, and the sums that they give.
* `check_eq_decide` — the outcome of a check of a proof in shape.
* `eq_of_weightedSum` — a wrong entry is hidden by one weight at most.
* `check_exact` — all that a check accepts, and with which weights.
-/

namespace GroupKey

variable {S : Suite} {ρ : Type}

namespace JoinProof

/-! ## Weighted deviations -/

/-- The slots other than the given one, in order. -/
def otherSlots (scale slot : Nat) : List Nat := (List.range scale).filter (· ≠ slot)

section Pairing

variable [S.BilinearPairing]

/-- How far `z` is from being the entry for slot `j` that carries both keys. -/
def deviationOf (p : Parameters S) (combined : S.G1) (u : S.G2) (z : S.G1) (j : Nat) : S.GT :=
  S.pair z p.g2 - S.pair combined p.g0G2 - S.pair (p.slotBase j) u

/-- How far the entry of slot `j` is from the one that its maker would have computed. -/
def deviation (p : Parameters S) (proof : JoinProof S) (key : PublicKey S) (j : Nat) : S.GT :=
  deviationOf p (key.combined (proof.challenge key)) proof.u ((proof.entry? j).getD 0) j

/-- The sum of the deviations of the slots under the weights drawn for them. -/
def weightedSum (δ : Nat → S.GT) (slots : List Nat) (weights : List S.Scalar) : S.GT :=
  (List.zipWith (fun j w => w • δ j) slots weights).sum

variable {p : Parameters S} {combined : S.G1} {u : S.G2} {δ : Nat → S.GT}

/-- How far the two sides of a batched equation are apart. -/
def Batch.gap (b : Batch S) (p : Parameters S) (combined : S.G1) (u : S.G2) : S.GT :=
  S.pair b.entries p.g2 - S.pair (b.weights • combined) p.g0G2 - S.pair b.bases u

theorem Batch.holds_iff {b : Batch S} : b.Holds p combined u ↔ b.gap p combined u = 0 := by
  rw [Holds, gap, sub_sub, sub_eq_zero]

theorem Batch.gap_zero : (Batch.zero (S := S)).gap p combined u = 0 := by
  have hweight : S.scalar 0 = 0 := Fin.ext (Nat.zero_mod _)
  rw [gap, zero, hweight, zero_smul, Suite.pair_zero_left, Suite.pair_zero_left,
    Suite.pair_zero_left, sub_zero, sub_zero]

theorem Batch.gap_add (b : Batch S) (w : S.Scalar) (z : S.G1) (j : Nat) :
    (b.add w z (p.slotBase j)).gap p combined u =
      b.gap p combined u + w • deviationOf p combined u z j := by
  simp only [gap, add, deviationOf, add_smul, smul_sub, Suite.pair_add_left,
    Suite.pair_smul_left]
  abel

variable [Generator ρ]

/-- **The weights that are drawn.** One is drawn for each entry but that of the slot, in order, and
the gap grows by the weighted deviations. -/
theorem drawBatch_eq (p : Parameters S) (combined : S.G1) (u : S.G2) {slot : Nat}
    {z : Nat → S.G1} {zs : List (Option S.G1)} {j : Nat}
    (hzs : ∀ k < zs.length, j + k ≠ slot → zs[k]? = some (some (z (j + k)))) (b : Batch S)
    (r : ρ) :
    let slots := (List.range' j zs.length).filter (· ≠ slot)
    let drawn := Parameters.forEachDraw (fun _ => S.randomScalar) slots r
    ∃ b', drawBatch p slot j zs b r = (some b', drawn.2) ∧
      b'.gap p combined u = b.gap p combined u +
        weightedSum (fun k => deviationOf p combined u (z k) k) slots drawn.1 := by
  induction zs generalizing j b r with
  | nil => exact ⟨b, rfl, by simp [weightedSum]⟩
  | cons z' zs ih =>
    have htail : ∀ k < zs.length, j + 1 + k ≠ slot → zs[k]? = some (some (z (j + 1 + k))) := by
      intro k hk hne
      have h := hzs (k + 1) (by simpa using hk) (by omega)
      rwa [List.getElem?_cons_succ, show j + (k + 1) = j + 1 + k by omega] at h
    unfold drawBatch
    by_cases hj : j = slot
    · -- Nothing is drawn for the slot of the proof.
      rw [if_pos hj, List.length_cons, List.range'_succ,
        List.filter_cons_of_neg (by simpa using hj)]
      exact ih htail b r
    · rw [if_neg hj, List.length_cons, List.range'_succ,
        List.filter_cons_of_pos (by simpa using hj)]
      obtain rfl : z' = some (z j) := by simpa using hzs 0 (by simp) (by simpa using hj)
      obtain ⟨b', hdraw, hgap⟩ := ih htail
        (b.add (S.randomScalar r).1 (z j) (p.slotBase j)) (S.randomScalar r).2
      refine ⟨b', hdraw, hgap.trans ?_⟩
      rw [Batch.gap_add, add_assoc]
      simp [weightedSum, Parameters.forEachDraw]

/-- **The outcome of a check.** A proof in shape is accepted if and only if the deviations cancel
under the weights drawn for them. -/
theorem check_eq_decide {directory : Directory S} {proof : JoinProof S} {scale : Nat}
    {key : PublicKey S} (hscale : p.scale proof.tier = .ok scale) (hfits : proof.Fits scale)
    (hkey : directory.get? proof.keyId = some key) (r : ρ) :
    let slots := otherSlots scale proof.slot.toNat
    let drawn := Parameters.forEachDraw (fun _ => S.randomScalar) slots r
    proof.check p directory r =
      (decide (weightedSum (proof.deviation p key) slots drawn.1 = 0), drawn.2) := by
  have hentries : ∀ k < proof.z.length, 0 + k ≠ proof.slot.toNat →
      proof.z[k]? = some (some ((proof.entry? (0 + k)).getD 0)) := by
    intro k hk hne
    rw [Nat.zero_add] at hne ⊢
    obtain ⟨z, hz⟩ := Option.isSome_iff_exists.1 (hfits.entry?_isSome k (hfits.length_z ▸ hk) hne)
    rw [hz, Option.getD_some]
    exact Option.join_eq_some_iff.1 hz
  obtain ⟨b, hdraw, hgap⟩ := drawBatch_eq p (key.combined (proof.challenge key)) proof.u
    (z := fun k => (proof.entry? k).getD 0) hentries Batch.zero r
  have hshape : proof.HasShape scale := ⟨hfits.length_z, hfits.slot_lt, hfits.entry?_self⟩
  rw [Batch.gap_zero, zero_add, hfits.length_z, ← List.range_eq_range'] at hgap
  rw [hfits.length_z, ← List.range_eq_range'] at hdraw
  intro slots drawn
  unfold check
  simp only [hscale, hshape, not_true_eq_false, if_false, hkey, hdraw]
  refine Prod.ext (decide_eq_decide.2 ?_) rfl
  rw [Batch.holds_iff, hgap]
  rfl

/-! ## Hiding a wrong entry -/

theorem weightedSum_set {slots : List Nat} {weights : List S.Scalar} {i j : Nat}
    (hi : slots[i]? = some j) (hlength : weights.length = slots.length) (w : S.Scalar) :
    weightedSum δ slots (weights.set i w) = weightedSum δ slots (weights.set i 0) + w • δ j := by
  induction slots generalizing weights i with
  | nil => simp at hi
  | cons j' slots ih =>
    cases weights with
    | nil => simp at hlength
    | cons w' weights =>
      cases i with
      | zero =>
        obtain rfl : j' = j := by simpa using hi
        simp [weightedSum, add_comm]
      | succ i =>
        have hi : slots[i]? = some j := by simpa using hi
        have h := ih hi (Nat.succ.inj hlength)
        simp only [weightedSum, List.set_cons_succ, List.zipWith_cons_cons, List.sum_cons] at h ⊢
        rw [h, add_assoc]

theorem eq_zero_of_smul_eq_zero (hprime : S.order.Prime) {k : S.Scalar} {x : S.GT}
    (hx : x ≠ 0) (h : k • x = 0) : k = 0 := by
  by_contra hk
  have hval : k.val ≠ 0 := fun hval => hk (Fin.ext hval)
  obtain ⟨m, hm, hinv⟩ := Nat.exists_mul_mod_eq_one_of_coprime
    (Nat.coprime_of_lt_prime hval k.isLt hprime).symm hprime.one_lt
  have hinverse : (⟨m, hm⟩ : S.Scalar) * k = 1 := by
    refine Fin.ext ?_
    rw [Fin.val_mul, Nat.mul_comm, hinv]
    exact (Nat.mod_eq_of_lt hprime.one_lt).symm
  apply hx
  calc x = (⟨m, hm⟩ : S.Scalar) • k • x := by rw [smul_smul, hinverse, one_smul]
    _ = 0 := by rw [h, smul_zero]

/-- **A wrong entry is hidden by one weight at most**, whatever the others are. -/
theorem eq_of_weightedSum (hprime : S.order.Prime) {slots : List Nat} {weights : List S.Scalar}
    {i j : Nat} (hi : slots[i]? = some j) (hlength : weights.length = slots.length) (hj : δ j ≠ 0)
    {w w' : S.Scalar} (h : weightedSum δ slots (weights.set i w) = 0)
    (h' : weightedSum δ slots (weights.set i w') = 0) : w = w' := by
  rw [weightedSum_set hi hlength] at h h'
  have hsmul : (w - w') • δ j = 0 := by
    rw [sub_smul, sub_eq_zero]
    exact add_left_cancel (h.trans h'.symm)
  exact sub_eq_zero.1 (eq_zero_of_smul_eq_zero hprime hj hsmul)

theorem weightedSum_eq_zero {slots : List Nat} (h : ∀ j ∈ slots, δ j = 0)
    (weights : List S.Scalar) : weightedSum δ slots weights = 0 := by
  induction slots generalizing weights with
  | nil => rfl
  | cons j slots ih =>
    cases weights with
    | nil => rfl
    | cons w weights =>
      have htail := ih (fun k hk => h k (List.mem_cons_of_mem _ hk)) weights
      rw [weightedSum] at htail ⊢
      rw [List.zipWith_cons_cons, List.sum_cons, htail, h j List.mem_cons_self, smul_zero, add_zero]

variable (ρ) in
/-- **What a check accepts.** Take a proof that fits its tier and whose key is published. The check
draws one weight for each slot but that of the proof, in order, and accepts if and only if the
deviations cancel under them. So it accepts with all weights if no entry deviates; and if one does,
then at most one weight for that entry goes with any given weights for the others. All other proofs
are rejected. -/
theorem check_exact (hprime : S.order.Prime) (p : Parameters S) (directory : Directory S)
    (proof : JoinProof S) :
    (∀ scale key, p.scale proof.tier = .ok scale → proof.Fits scale →
      directory.get? proof.keyId = some key →
      let δ := proof.deviation p key
      let slots := otherSlots scale proof.slot.toNat
      (∀ r : ρ, let drawn := Parameters.forEachDraw (fun _ => S.randomScalar) slots r
        proof.check p directory r = (decide (weightedSum δ slots drawn.1 = 0), drawn.2)) ∧
      ((∀ j ∈ slots, δ j = 0) → ∀ r : ρ, (proof.check p directory r).1 = true) ∧
      ∀ i j, slots[i]? = some j → δ j ≠ 0 → ∀ (weights : List S.Scalar) (w w' : S.Scalar),
        weights.length = slots.length → weightedSum δ slots (weights.set i w) = 0 →
        weightedSum δ slots (weights.set i w') = 0 → w = w') ∧
    ((∀ scale key, p.scale proof.tier = .ok scale → proof.Fits scale →
      directory.get? proof.keyId ≠ some key) → ∀ r : ρ, (proof.check p directory r).1 = false) := by
  refine ⟨fun scale key hscale hfits hkey => ?_, fun hnone r => ?_⟩
  · intro δ slots
    refine ⟨check_eq_decide hscale hfits hkey, fun h r => ?_, fun i j hi hj weights w w' => ?_⟩
    · rw [check_eq_decide hscale hfits hkey]
      exact decide_eq_true (weightedSum_eq_zero h _)
    · exact fun hlength => eq_of_weightedSum hprime hi hlength hj
  · by_contra haccepted
    obtain ⟨t, key, ht, hfits, hkey⟩ := fits_of_check (Bool.eq_true_of_not_eq_false haccepted)
    exact hnone t.scale key (Parameters.scale_of_tier ht) hfits hkey

end Pairing

/-! ### A forged proof -/

/-- Parameters for groups of three over exponents modulo eleven. -/
def smallParameters : Parameters (.exponents 11) :=
  (((Parameters.setup 80 3 3 (Counter.mk 1)).1.toOption).get (by decide +kernel)).1

/-- A directory with one key. -/
def smallDirectory : Directory (.exponents 11) :=
  (Directory.empty.upload 0 ⟨(3 : Fin 11), (5 : Fin 11)⟩).2

/-- A proof for the first slot, with entries that were made up. -/
def forgedProof : JoinProof (.exponents 11) :=
  ⟨0, 0, 0, .new 0 0 ⟨80⟩, (2 : Fin 11), [none, some (4 : Fin 11), some (7 : Fin 11)]⟩

/-- Whatever the weight of the second entry is, one weight of the first at most makes the forged
proof pass. -/
theorem check_exact_forged :
    let δ := forgedProof.deviation smallParameters ⟨(3 : Fin 11), (5 : Fin 11)⟩
    δ 1 ≠ 0 ∧
      (∀ r : Counter,
        let drawn := Parameters.forEachDraw (fun _ => (Suite.exponents 11).randomScalar) [1, 2] r
        forgedProof.check smallParameters smallDirectory r =
          (decide (weightedSum δ [1, 2] drawn.1 = 0), drawn.2)) ∧
      ∀ w w' v : Fin 11, weightedSum δ [1, 2] [w, v] = 0 → weightedSum δ [1, 2] [w', v] = 0 →
        w = w' := by
  have hscale : smallParameters.scale forgedProof.tier = .ok 3 :=
    (eq_ok_of_toOption (by decide +kernel)).trans (congrArg Except.ok (by decide +kernel))
  have hfits : forgedProof.Fits 3 := ⟨rfl, by decide, rfl, by decide⟩
  have hkey : smallDirectory.get? forgedProof.keyId = some ⟨(3 : Fin 11), (5 : Fin 11)⟩ := by
    simp [smallDirectory, Directory.upload, Directory.empty, Directory.refusing, Directory.get?,
      forgedProof]
  intro δ
  have hδ : δ 1 ≠ 0 := by decide +kernel
  obtain ⟨hcheck, -, hunique⟩ := (check_exact Counter Nat.prime_eleven smallParameters
    smallDirectory forgedProof).1 3 _ hscale hfits hkey
  exact ⟨hδ, hcheck, fun w w' v => hunique 0 1 rfl hδ [0, v] w w' rfl⟩

end JoinProof

end GroupKey
