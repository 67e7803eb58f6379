import GroupKey.Proofs.Agreement.Decryption
import GroupKey.Proofs.Suite.Exponents
import Mathlib.Order.Bounds.Defs

/-!
# Tiers that setup draws

Setup draws for each size tier a matrix of commitments and keeps its diagonal apart. Both are read
later by position alone, so they must fit each other: as many rows and entries as the tier has
slots, nothing published on the diagonal, and on and off the diagonal the same equation of pairings.

* `scalesFrom` — the scales of the tiers as they are counted up.
* `IsRow`, `IsTiered` — what a row of a matrix, and all matrices, are to be.
* `isTiered_of_setup` — every successful setup draws such.
* `IsTiered.tierForSize?_eq_some_iff` — the tier for a group of some size.
* `setup_draws_tiers` — when setup succeeds, and what it draws.
-/

namespace GroupKey.Parameters

variable {S : Suite} {ρ : Type} {p : Parameters S} {secrets : SlotSecrets S}
  {maxGroupSize sizeStep : Nat}

/-! ## Scales -/

/-- The scales of the tiers from `scale` on, as they are counted up in equal steps. -/
def scalesFrom (maxGroupSize sizeStep scale : Nat) : List Nat :=
  if 0 < sizeStep ∧ scale ≤ maxGroupSize then
    scale :: scalesFrom maxGroupSize sizeStep (scale + sizeStep)
  else []
termination_by maxGroupSize + 1 - scale

theorem scalesFrom_mul (maxGroupSize : Nat) (hstep : 0 < sizeStep) (n : Nat) :
    scalesFrom maxGroupSize sizeStep ((n + 1) * sizeStep) =
      (List.range (maxGroupSize / sizeStep - n)).map fun t => (n + t + 1) * sizeStep := by
  -- By induction on the number of tiers that are still to come.
  obtain ⟨left, hleft⟩ : ∃ left, maxGroupSize / sizeStep - n = left := ⟨_, rfl⟩
  induction left generalizing n with
  | zero =>
    have hlarge : ¬(n + 1) * sizeStep ≤ maxGroupSize := by
      rw [← Nat.le_div_iff_mul_le hstep]
      omega
    rw [scalesFrom, if_neg fun h => hlarge h.2, hleft]
    rfl
  | succ left ih =>
    have hsmall : (n + 1) * sizeStep ≤ maxGroupSize := by
      rw [← Nat.le_div_iff_mul_le hstep]
      omega
    have hrest : maxGroupSize / sizeStep - (n + 1) = left := by omega
    rw [scalesFrom, if_pos ⟨hstep, hsmall⟩, ← Nat.succ_mul, ih (n + 1) hrest, hrest, hleft,
      List.range_succ_eq_map, List.map_cons, List.map_map]
    refine congrArg _ (List.map_congr_left fun t _ => ?_)
    rw [Function.comp_apply, Nat.succ_add_eq_add_succ]

/-- **The scales that setup draws tiers for** are those that are counted up. -/
theorem tierScales_eq (hstep : 0 < sizeStep) :
    tierScales maxGroupSize sizeStep = scalesFrom maxGroupSize sizeStep sizeStep := by
  have hscales := scalesFrom_mul maxGroupSize hstep 0
  rw [Nat.zero_add, Nat.one_mul, Nat.sub_zero] at hscales
  rw [hscales, tierScales]
  simp only [Nat.zero_add]

/-! ## Rows -/

/-- The row of a slot, with its unpublished entry: its challenge is that of the empty group name,
the entry of its own slot is absent and no other, and all entries carry its keys, the unpublished
one included. -/
structure IsRow (p : Parameters S) (scale slot : Nat) (row : PseudoMember S) (own : S.G1) :
    Prop where
  length : row.commitments.length = scale
  challenge : row.v = S.challenge [] row.publicKey row.u
  absent_iff : ∀ j < scale, row.commitments[j]? = some none ↔ j = slot
  carries : ∀ j m, row.commitments[j]? = some (some m) → p.Carries m j row.combined row.u
  carries_own : p.Carries own slot row.combined row.u

theorem getElem?_commitments (slot : Nat) (es : List S.G1) (j : Nat) :
    (withoutSlot slot es)[j]? = (es[j]?).map fun z => if j = slot then none else some z := by
  rw [withoutSlot, List.getElem?_mapIdx]

theorem isRow_pseudoMember [S.BilinearPairing] (hp : p.IsSetup secrets) {scale slot : Nat}
    (hslot : slot < scale) (hscale : scale ≤ p.h.length) (secret : SecretKey S) (w : S.Scalar) :
    p.IsRow scale slot (p.pseudoMember scale slot secret w).1
      (p.pseudoMember scale slot secret w).2 := by
  have hentry : ∀ j < scale, ∃ z, (p.entries scale (secret.exponent
      (S.challenge [] secret.publicKey (w • S.base2))) w)[j]? = some z ∧
      p.Carries z j (p.pseudoMember scale slot secret w).1.combined (w • S.base2) := fun j hj =>
    hp.carries_entries hj hscale secret _ w
  constructor
  case length => exact (length_withoutSlot _ _).trans (length_entries p _ w hscale)
  case challenge => rfl
  case absent_iff =>
    intro j hj
    obtain ⟨z, hz, -⟩ := hentry j hj
    simp [pseudoMember, getElem?_commitments, hz]
  case carries =>
    intro j m hm
    have hj : j < scale := by
      have hlt := (List.getElem?_eq_some_iff.1 hm).1
      rwa [pseudoMember, length_withoutSlot, length_entries p _ w hscale] at hlt
    obtain ⟨z, hz, hcarries⟩ := hentry j hj
    obtain ⟨-, rfl⟩ : ¬j = slot ∧ z = m := by
      simpa [pseudoMember, getElem?_commitments, hz] using hm
    exact hcarries
  case carries_own =>
    obtain ⟨z, hz, hcarries⟩ := hentry slot hslot
    have hown : (p.pseudoMember scale slot secret w).2 = z := by rw [pseudoMember, hz]; rfl
    exact hown ▸ hcarries

/-! ## All tiers -/

/-- The matrices of all tiers, with their diagonals. -/
structure IsTiered (p : Parameters S) (secrets : SlotSecrets S) (maxGroupSize sizeStep : Nat) :
    Prop where
  length_h : p.h.length = maxGroupSize
  exponent : S.pair p.g0G1 p.g2 = S.pair p.g1 p.g0G2
  length_tiers : p.tiers.length = maxGroupSize / sizeStep
  length_diagonals : secrets.diagonals.length = maxGroupSize / sizeStep
  scales : p.tiers.map SizeTier.scale = scalesFrom maxGroupSize sizeStep sizeStep
  scale : ∀ n t, p.tiers[n]? = some t → t.members.length = (n + 1) * sizeStep
  /-- Beside every row of a matrix there is an entry of the diagonal, and beside no other slot. -/
  rows : ∀ n t, p.tiers[n]? = some t → ∃ diagonal, secrets.diagonals[n]? = some diagonal ∧
    diagonal.length = t.members.length ∧ ∀ i row, t.members[i]? = some row →
      ∃ own, diagonal[i]? = some own ∧ p.IsRow ((n + 1) * sizeStep) i row own

/-- **The tier for a group** is the first that has room for it, if its number fits. -/
theorem IsTiered.tierForSize?_eq_some_iff (h : p.IsTiered secrets maxGroupSize sizeStep)
    (size : Nat) (tier : UInt16) :
    p.tierForSize? size = some tier ↔
      IsLeast {t | t < maxGroupSize / sizeStep ∧ size ≤ (t + 1) * sizeStep} tier.toNat := by
  have hscale : ∀ (n : Nat) (hn : n < p.tiers.length), p.tiers[n].scale = (n + 1) * sizeStep :=
    fun n hn => h.scale n _ (List.getElem?_eq_getElem hn)
  -- The search is over all tiers. That the number of the tier fits 16 bits is asked for only then.
  have hfound (n : Nat) : p.tiers.findIdx? (fun t => size ≤ t.scale) = some n ↔
      IsLeast {t | t < maxGroupSize / sizeStep ∧ size ≤ (t + 1) * sizeStep} n := by
    rw [List.findIdx?_eq_some_iff_getElem, ← h.length_tiers]
    constructor
    · rintro ⟨hn, hroom, hbefore⟩
      refine ⟨⟨hn, by simpa [hscale n hn] using hroom⟩, fun t ht => Nat.not_lt.1 fun hlt => ?_⟩
      have hnot := hbefore t hlt
      rw [hscale t ht.1] at hnot
      exact hnot (decide_eq_true ht.2)
    · rintro ⟨⟨hn, hroom⟩, hleast⟩
      refine ⟨hn, by simpa [hscale n hn] using hroom, fun t hlt hfits => ?_⟩
      rw [hscale t (Nat.lt_trans hlt hn)] at hfits
      exact Nat.not_le.2 hlt (hleast ⟨Nat.lt_trans hlt hn, of_decide_eq_true hfits⟩)
  rw [← hfound, tierForSize?]
  cases p.tiers.findIdx? (fun t => size ≤ t.scale) with
  | none => simp
  | some n =>
    simp only [Option.some.injEq]
    by_cases hfits : n < UInt16.size
    · have hn : (UInt16.ofNat n).toNat = n := UInt16.toNat_ofNat_of_lt' hfits
      rw [if_pos hfits, Option.some.injEq, ← UInt16.toNat_inj, hn]
    · have hne : n ≠ tier.toNat := fun heq => hfits (heq ▸ tier.toNat_lt)
      simp [hfits, hne]

variable [Generator ρ]

/-- **Every successful setup draws such tiers.** -/
theorem isTiered_of_setup [S.BilinearPairing] {level : UInt32} {r r' : ρ}
    (h : setup level maxGroupSize sizeStep r = (.ok (p, secrets), r')) :
    p.IsTiered secrets maxGroupSize sizeStep := by
  have hsetup := isSetup_of_setup h
  obtain ⟨⟨hstep, -⟩, e, base, s, hg1, hg2, hg0, hg0', hh, hp, hs⟩ := setup_eq_ok h
  -- A tier and its secret diagonal are the two halves of the same draw.
  have hdrawn : ∀ n t, p.tiers[n]? = some t → t.members.length = (n + 1) * sizeStep ∧
      ∃ diagonal, secrets.diagonals[n]? = some diagonal ∧
        diagonal.length = (n + 1) * sizeStep := by
    intro n t ht
    have hlt := (List.getElem?_eq_some_iff.1 ht).1
    rw [hp, List.length_map, length_drawnTiers] at hlt
    obtain ⟨r'', hr⟩ := getElem?_drawnTiers base s hlt
    rw [hp, List.getElem?_map, hr] at ht
    obtain rfl := Option.some.inj ht
    refine ⟨scale_drawTier base _ r'', _, by rw [hs, List.getElem?_map, hr]; rfl, ?_⟩
    simp [drawTier, length_forEachDraw]
  have hlength : p.tiers.length = maxGroupSize / sizeStep := by
    rw [hp, List.length_map, length_drawnTiers]
  constructor
  case length_h => rw [hp, hh]
  case exponent =>
    have hbase : S.pair (e • S.base1) S.base2 = S.pair S.base1 (e • S.base2) := by
      rw [Suite.pair_smul_left, Suite.pair_smul_right]
    rw [hp]
    show S.pair base.g0G1 base.g2 = S.pair base.g1 base.g0G2
    rw [hg0, hg2, hg1, hg0', hbase]
  case length_tiers => exact hlength
  case length_diagonals => rw [hs, List.length_map, length_drawnTiers]
  case scales =>
    rw [← tierScales_eq (Nat.pos_of_ne_zero hstep), tierScales]
    refine List.ext_getElem (by simp [hlength]) fun n hn _ => ?_
    rw [List.length_map] at hn
    rw [List.getElem_map, List.getElem_map, List.getElem_range]
    exact (hdrawn n _ (List.getElem?_eq_getElem hn)).1
  case scale => exact fun n t ht => (hdrawn n t ht).1
  case rows =>
    intro n t ht
    obtain ⟨hscale, diagonal, hdiagonal, hlength⟩ := hdrawn n t ht
    refine ⟨diagonal, hdiagonal, hlength.trans hscale.symm, fun i row hrow => ?_⟩
    have hi : i < t.scale := (List.getElem?_eq_some_iff.1 hrow).1
    obtain ⟨secret, w, hmember, hown⟩ := hsetup.row n t i ht hi
    rw [hdiagonal, Option.bind_some] at hown
    obtain rfl := Option.some.inj (hrow.symm.trans hmember)
    refine ⟨_, hown, ?_⟩
    rw [← hscale]
    exact isRow_pseudoMember hsetup hi (hsetup.scale n t ht).2 secret w

/-! ## Setup -/

theorem setup_succeeds_iff (level : UInt32) (maxGroupSize sizeStep : Nat) (r : ρ) :
    (∃ drawn, (setup (S := S) level maxGroupSize sizeStep r).1 = .ok drawn) ↔
      level.toNat ≤ 128 ∧ 0 < sizeStep ∧ sizeStep ≤ maxGroupSize ∧ maxGroupSize ≤ 2 ^ 32 - 1 := by
  have hlevel : maxSecurityLevel < level ↔ ¬level.toNat ≤ 128 :=
    UInt32.lt_iff_toNat_lt.trans Nat.not_le.symm
  have hsizes : (sizeStep = 0 ∨ maxGroupSize < sizeStep ∨ UInt32.size ≤ maxGroupSize) ↔
      ¬(0 < sizeStep ∧ sizeStep ≤ maxGroupSize ∧ maxGroupSize ≤ 2 ^ 32 - 1) := by
    have hsize : UInt32.size = 2 ^ 32 := rfl
    omega
  unfold setup
  split_ifs with hhigh hwrong
  · exact iff_of_false (by simp) fun h => hlevel.1 hhigh h.1
  · exact iff_of_false (by simp) fun h => hsizes.1 hwrong h.2
  · exact iff_of_true ⟨_, rfl⟩ ⟨not_not.1 (mt hlevel.2 hhigh), not_not.1 (mt hsizes.2 hwrong)⟩

/-- **Setup draws consistent tiers.** It succeeds just if the security level is at most 128 and the
step is positive, not above the largest group, and that one not above `2 ^ 32 - 1`. Then there are
as many generators as the largest group has slots, the two shared multiples have one exponent, and
the tiers are those of the multiples of the step. Each has as many rows as slots and beside each row
an unpublished entry. The challenge of a row is that of the empty name, the row lacks the entry of
its own slot and no other, and all entries, the unpublished one with them, obey one equation. The
tier for a group is the smallest with room for it, if its number is below `2 ^ 16`. -/
theorem setup_draws_tiers [S.BilinearPairing] (level : UInt32) (maxGroupSize sizeStep : Nat)
    (r : ρ) :
    ((∃ drawn, (setup (S := S) level maxGroupSize sizeStep r).1 = .ok drawn) ↔
      level.toNat ≤ 128 ∧ 0 < sizeStep ∧ sizeStep ≤ maxGroupSize ∧ maxGroupSize ≤ 2 ^ 32 - 1) ∧
    ∀ (p : Parameters S) (secrets : SlotSecrets S),
      (setup level maxGroupSize sizeStep r).1 = .ok (p, secrets) →
      p.IsTiered secrets maxGroupSize sizeStep ∧
      ∀ (size : Nat) (tier : UInt16), p.tierForSize? size = some tier ↔
        IsLeast {t | t < maxGroupSize / sizeStep ∧ size ≤ (t + 1) * sizeStep} tier.toNat := by
  refine ⟨setup_succeeds_iff level maxGroupSize sizeStep r, fun p secrets h => ?_⟩
  have htiered : p.IsTiered secrets maxGroupSize sizeStep := isTiered_of_setup (Prod.ext h rfl)
  exact ⟨htiered, htiered.tierForSize?_eq_some_iff⟩

/-- Groups of up to five in steps of two: there are tiers for two and for four, and none for five.
-/
theorem setup_draws_tiers_five :
    ∃ (p : Parameters .sample) (secrets : SlotSecrets .sample),
      (setup 128 5 2 (Counter.mk 1)).1 = .ok (p, secrets) ∧ p.IsTiered secrets 5 2 ∧
      p.tierForSize? 3 = some 1 ∧ p.tierForSize? 5 = none := by
  obtain ⟨hsucceeds, hdraws⟩ := setup_draws_tiers (S := .sample) 128 5 2 (Counter.mk 1)
  obtain ⟨⟨p, secrets⟩, h⟩ := hsucceeds.2 (by decide)
  obtain ⟨htiered, htier⟩ := hdraws p secrets h
  refine ⟨p, secrets, h, htiered, (htier 3 1).2 ⟨by decide, fun t ht => ?_⟩, ?_⟩
  · have hroom : 3 ≤ (t + 1) * 2 := ht.2
    show 1 ≤ t
    omega
  · refine Option.eq_none_iff_forall_ne_some.2 fun tier hsome => ?_
    obtain ⟨hlt, hroom⟩ := ((htier 5 tier).1 hsome).1
    omega

end GroupKey.Parameters
