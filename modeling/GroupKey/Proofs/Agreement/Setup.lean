import GroupKey.Agreement.Proof
import Mathlib.Tactic.SplitIfs

/-!
# What setup draws

Setup threads one generator through all its draws. What later statements need is only the form
of the outcome: some exponents were drawn, and every value is computed from them.

* `IsSetup` — the form of drawn parameters and of their unpublished entries.
* `isSetup_of_setup` — every successful setup has that form, whatever the generator gives.

From the form follows the shape of the pseudo members' rows: one entry per slot, absent exactly
on the diagonal.
-/

namespace GroupKey

variable {S : Suite} {ρ : Type}

namespace Parameters

/-! ## Rows of entries -/

theorem getElem?_entries (p : Parameters S) {scale : Nat} (x w : S.Scalar) {j : Nat}
    (hj : j < scale) :
    (p.entries scale x w)[j]? = (p.h[j]?).map fun h => x • p.g0G1 + w • h := by
  simp only [entries, List.getElem?_map, List.getElem?_take, hj, if_true]

theorem length_entries (p : Parameters S) {scale : Nat} (x w : S.Scalar)
    (h : scale ≤ p.h.length) : (p.entries scale x w).length = scale := by
  simp [entries, h]

theorem length_withoutSlot (slot : Nat) (es : List S.G1) :
    (withoutSlot slot es).length = es.length := by
  simp [withoutSlot]

theorem getElem?_withoutSlot (slot : Nat) (es : List S.G1) (j : Nat) :
    ((withoutSlot slot es)[j]?).join = if j = slot then none else es[j]? := by
  simp only [withoutSlot, List.getElem?_mapIdx]
  cases es[j]? <;> split_ifs <;> rfl

/-! ## Threaded draws -/

/-- Each value is drawn from the generator as the draws before it left it. -/
theorem getElem?_forEachDraw {α β : Type} (f : α → ρ → β × ρ) (as : List α) (r : ρ) (i : Nat) :
    ∃ r', ((forEachDraw f as r).1)[i]? = (as[i]?).map fun a => (f a r').1 := by
  induction as generalizing r i with
  | nil => exact ⟨r, rfl⟩
  | cons a as ih =>
    cases i with
    | zero => exact ⟨r, rfl⟩
    | succ i => exact ih (f a r).2 i

theorem length_forEachDraw {α β : Type} (f : α → ρ → β × ρ) (as : List α) (r : ρ) :
    (forEachDraw f as r).1.length = as.length := by
  induction as generalizing r with
  | nil => rfl
  | cons a as ih => simp [forEachDraw, ih]

/-! ## The form of drawn parameters -/

/-- The pseudo member of a slot under given exponents, with its unpublished entry. -/
def pseudoMember (p : Parameters S) (scale slot : Nat) (secret : SecretKey S) (w : S.Scalar) :
    PseudoMember S × S.G1 :=
  let u := w • S.base2
  let v := S.challenge [] secret.publicKey u
  let entries := p.entries scale (secret.exponent v) w
  (⟨withoutSlot slot entries, u, secret.publicKey, v⟩, (entries[slot]?).getD 0)

variable [Generator ρ]

theorem drawMember_eq (p : Parameters S) (scale slot : Nat) (r : ρ) :
    ∃ secret w, (p.drawMember scale slot r).1 = p.pseudoMember scale slot secret w :=
  ⟨_, _, rfl⟩

theorem getElem?_drawTier (p : Parameters S) (scale : Nat) (r : ρ) {i : Nat} (hi : i < scale) :
    ∃ secret w,
      ((p.drawTier scale r).1.1.members)[i]? = some (p.pseudoMember scale i secret w).1 ∧
      ((p.drawTier scale r).1.2)[i]? = some (p.pseudoMember scale i secret w).2 := by
  obtain ⟨r', hr⟩ := getElem?_forEachDraw (p.drawMember scale) (List.range scale) r i
  obtain ⟨secret, w, h⟩ := drawMember_eq p scale i r'
  rw [List.getElem?_range hi, Option.map_some, h] at hr
  refine ⟨secret, w, ?_, ?_⟩ <;> simp [drawTier, hr]

theorem scale_drawTier (p : Parameters S) (scale : Nat) (r : ρ) :
    (p.drawTier scale r).1.1.scale = scale := by
  simp [drawTier, SizeTier.scale, length_forEachDraw]

/-- Parameters, and their unpublished entries, of the form that setup gives them. -/
structure IsSetup (p : Parameters S) (secrets : SlotSecrets S) : Prop where
  g2 : p.g2 = S.base2
  exponent : ∃ e : S.Scalar, p.g0G1 = e • S.base1 ∧ p.g0G2 = e • S.base2
  length_h : p.h.length < UInt32.size
  scale : ∀ (n : Nat) (t : SizeTier S), p.tiers[n]? = some t → 0 < t.scale ∧ t.scale ≤ p.h.length
  /-- Every row is that of some exponents, and its unpublished entry is kept. -/
  row : ∀ (n : Nat) (t : SizeTier S) (i : Nat), p.tiers[n]? = some t → i < t.scale →
    ∃ secret w, t.members[i]? = some (p.pseudoMember t.scale i secret w).1 ∧
      ((secrets.diagonals[n]?).bind fun entries => entries[i]?) =
        some (p.pseudoMember t.scale i secret w).2

/-- A successful setup extends parameters without tiers by the tiers drawn with them. -/
theorem setup_eq_ok {level : UInt32} {maxGroupSize sizeStep : Nat} {r r' : ρ}
    {p : Parameters S} {secrets : SlotSecrets S}
    (h : setup level maxGroupSize sizeStep r = (.ok (p, secrets), r')) :
    (sizeStep ≠ 0 ∧ maxGroupSize < UInt32.size) ∧
      ∃ (e : S.Scalar) (base : Parameters S) (s : ρ),
        base.g1 = S.base1 ∧ base.g2 = S.base2 ∧ base.g0G1 = e • S.base1 ∧
        base.g0G2 = e • S.base2 ∧ base.h.length = maxGroupSize ∧
        p = { base with
          tiers := (forEachDraw base.drawTier (tierScales maxGroupSize sizeStep) s).1.map (·.1) } ∧
        secrets =
          ⟨(forEachDraw base.drawTier (tierScales maxGroupSize sizeStep) s).1.map (·.2)⟩ := by
  unfold setup at h
  split_ifs at h with hlevel hsizes
  · simp at h
  · simp at h
  simp only [Prod.mk.injEq, Except.ok.injEq] at h
  obtain ⟨⟨hp, hs⟩, -⟩ := h
  let e := (S.randomScalar r).1
  let exponents := forEachDraw (fun _ => S.randomScalar) (List.range maxGroupSize)
    (S.randomScalar r).2
  let base : Parameters S := ⟨level, S.base1, e • S.base1, S.base2, e • S.base2,
    exponents.1.map (· • S.base1), []⟩
  refine ⟨by omega, e, base, exponents.2, rfl, rfl, rfl, rfl, ?_, hp.symm, hs.symm⟩
  show (exponents.1.map (· • S.base1)).length = maxGroupSize
  rw [List.length_map, length_forEachDraw, List.length_range]

theorem getElem?_drawnTiers (base : Parameters S) {maxGroupSize sizeStep n : Nat} (s : ρ)
    (hn : n < maxGroupSize / sizeStep) :
    ∃ r : ρ, (forEachDraw base.drawTier (tierScales maxGroupSize sizeStep) s).1[n]? =
      some (base.drawTier ((n + 1) * sizeStep) r).1 := by
  obtain ⟨r, hr⟩ := getElem?_forEachDraw base.drawTier (tierScales maxGroupSize sizeStep) s n
  refine ⟨r, ?_⟩
  rw [hr, tierScales, List.getElem?_map, List.getElem?_range hn]
  rfl

theorem length_drawnTiers (base : Parameters S) (maxGroupSize sizeStep : Nat) (s : ρ) :
    (forEachDraw base.drawTier (tierScales maxGroupSize sizeStep) s).1.length =
      maxGroupSize / sizeStep := by
  rw [length_forEachDraw, tierScales, List.length_map, List.length_range]

/-- **Every successful setup has the form.** -/
theorem isSetup_of_setup {level : UInt32} {maxGroupSize sizeStep : Nat} {r r' : ρ}
    {p : Parameters S} {secrets : SlotSecrets S}
    (h : setup level maxGroupSize sizeStep r = (.ok (p, secrets), r')) : p.IsSetup secrets := by
  obtain ⟨⟨hstep, hmax⟩, e, base, s, -, hg2, hg1, hg0, hh, hp, hs⟩ := setup_eq_ok h
  have hpos : 0 < sizeStep := Nat.pos_of_ne_zero hstep
  have htier : ∀ (n : Nat) (t : SizeTier S), p.tiers[n]? = some t → ∃ r'' : ρ,
      n < maxGroupSize / sizeStep ∧ t = (base.drawTier ((n + 1) * sizeStep) r'').1.1 ∧
      secrets.diagonals[n]? = some (base.drawTier ((n + 1) * sizeStep) r'').1.2 := by
    intro n t ht
    rw [hp, List.getElem?_map] at ht
    have hn : n < maxGroupSize / sizeStep := by
      rw [← length_drawnTiers base maxGroupSize sizeStep s]
      obtain ⟨drawn, hdrawn, -⟩ := Option.map_eq_some_iff.1 ht
      exact (List.getElem?_eq_some_iff.1 hdrawn).1
    obtain ⟨r'', hr⟩ := getElem?_drawnTiers base s hn
    rw [hr] at ht
    refine ⟨r'', hn, (Option.some.inj ht).symm, ?_⟩
    rw [hs, List.getElem?_map, hr]
    rfl
  -- The parameters that the tiers were drawn with differ from `p` in the tiers only.
  have hrow : ∀ scale slot secret w,
      base.pseudoMember scale slot secret w = p.pseudoMember scale slot secret w := by
    intro scale slot secret w
    rw [hp]
    rfl
  have hph : p.h = base.h := by rw [hp]
  refine ⟨by rw [hp, ← hg2], ⟨e, by rw [hp, ← hg1], by rw [hp, ← hg0]⟩, by rw [hph, hh]; exact hmax,
    ?_, ?_⟩
  · intro n t ht
    obtain ⟨r'', hn, rfl, -⟩ := htier n t ht
    rw [scale_drawTier, hph, hh]
    exact ⟨Nat.mul_pos n.succ_pos hpos, (Nat.le_div_iff_mul_le hpos).1 hn⟩
  · intro n t i ht hi
    obtain ⟨r'', hn, rfl, hd⟩ := htier n t ht
    rw [scale_drawTier] at hi ⊢
    obtain ⟨secret, w, hm, hdiag⟩ := getElem?_drawTier base ((n + 1) * sizeStep) r'' hi
    refine ⟨secret, w, ?_, ?_⟩
    · rw [hm, hrow]
    · rw [hd, Option.bind_some, hdiag, hrow]

end Parameters

/-! ## The rows of a tier -/

namespace SizeTier

/-- What the pseudo member of slot `i` contributes to the share of slot `j`, if it is published. -/
def entry? (t : SizeTier S) (i j : Nat) : Option S.G1 :=
  (t.members[i]?).bind fun m => (m.commitments[j]?).join

/-- What the pseudo member of slot `i` contributes to the share of slot `j`. -/
def entry (t : SizeTier S) (i j : Nat) : S.G1 := (t.entry? i j).getD 0

/-- The ephemeral key of the pseudo member of slot `i`. -/
def ephemeral (t : SizeTier S) (i : Nat) : S.G2 := ((t.members[i]?).map (·.u)).getD 0

/-- The combined public key of the pseudo member of slot `i`. -/
def combined (t : SizeTier S) (i : Nat) : S.G1 := ((t.members[i]?).map (·.combined)).getD 0

/-- Slots are thirty-two bits wide, and a row lacks its diagonal entry and no other. -/
structure IsShaped (t : SizeTier S) : Prop where
  scale_lt : t.scale < UInt32.size
  entry?_self : ∀ i, t.entry? i i = none
  entry?_isSome : ∀ i j, i < t.scale → j < t.scale → i ≠ j → (t.entry? i j).isSome

theorem member_eq_ok {t : SizeTier S} {slot : UInt32} (h : slot.toNat < t.scale) :
    ∃ m, t.member slot = .ok m ∧ m.u = t.ephemeral slot.toNat ∧
      m.combined = t.combined slot.toNat := by
  have hget : t.members[slot.toNat]? = some t.members[slot.toNat] := List.getElem?_eq_getElem h
  refine ⟨t.members[slot.toNat], ?_, ?_, ?_⟩
  · rw [member, hget]
  · simp [ephemeral, hget]
  · simp [combined, hget]

theorem commitment_eq_ok {t : SizeTier S} (ht : t.IsShaped) {row column : UInt32}
    (hr : row.toNat < t.scale) (hc : column.toNat < t.scale) (hne : row.toNat ≠ column.toNat) :
    t.commitment row column = .ok (t.entry row.toNat column.toNat) := by
  obtain ⟨z, hz⟩ := Option.isSome_iff_exists.1 (ht.entry?_isSome _ _ hr hc hne)
  have hget : t.members[row.toNat]? = some t.members[row.toNat] := List.getElem?_eq_getElem hr
  have hjoin : (t.members[row.toNat].commitments[column.toNat]?).join = some z := by
    rw [← hz, entry?, hget]
    rfl
  simp only [commitment, member, hget, hjoin, entry, hz, Option.getD_some]

end SizeTier

namespace Parameters

theorem tier_eq_ok {p : Parameters S} {number : UInt16} {t : SizeTier S} :
    p.tier number = .ok t ↔ p.tiers[number.toNat]? = some t := by
  unfold tier
  cases p.tiers[number.toNat]? <;> simp

theorem scale_of_tier {p : Parameters S} {number : UInt16} {t : SizeTier S}
    (h : p.tier number = .ok t) : p.scale number = .ok t.scale := by
  rw [scale, h]

theorem scale_eq_ok {p : Parameters S} {number : UInt16} {n : Nat} :
    p.scale number = .ok n ↔ ∃ t, p.tier number = .ok t ∧ t.scale = n := by
  unfold scale
  cases p.tier number <;> simp

theorem IsSetup.isShaped {p : Parameters S} {secrets : SlotSecrets S} (h : p.IsSetup secrets)
    {number : UInt16} {t : SizeTier S} (ht : p.tier number = .ok t) : t.IsShaped := by
  rw [tier_eq_ok] at ht
  have hscale := h.scale _ t ht
  have hrow : ∀ i j, i < t.scale → j < t.scale → ((t.entry? i j).isSome = true ↔ i ≠ j) := by
    intro i j hi hj
    obtain ⟨secret, w, hm, -⟩ := h.row _ t i ht hi
    have hlen : j < (p.entries t.scale (secret.exponent
        (S.challenge [] secret.publicKey (w • S.base2))) w).length := by
      rw [length_entries _ _ _ hscale.2]
      exact hj
    rw [SizeTier.entry?, hm, Option.bind_some, pseudoMember, getElem?_withoutSlot,
      List.getElem?_eq_getElem hlen]
    split_ifs with hij
    · simp [hij]
    · simpa using Ne.symm hij
  refine ⟨Nat.lt_of_le_of_lt hscale.2 h.length_h, ?_, fun i j hi hj => (hrow i j hi hj).2⟩
  intro i
  by_cases hi : i < t.scale
  · simpa using hrow i i hi hi
  · rw [SizeTier.entry?, List.getElem?_eq_none (Nat.le_of_not_lt hi), Option.bind_none]

end Parameters

end GroupKey
