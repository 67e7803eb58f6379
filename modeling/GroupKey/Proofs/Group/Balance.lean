import GroupKey.Node.Coordinator
import GroupKey.Proofs.Agreement.Acceptance
import GroupKey.Proofs.Group.Bitmap
import GroupKey.Proofs.Suite.Laws
import Mathlib.Algebra.BigOperators.Fin
import Mathlib.Algebra.BigOperators.Group.Finset.Basic
import Mathlib.Tactic.Abel

/-!
# The key material of a group in closed form

A group's encryption key and shares are never computed anew: a group starts from the sums over the
pseudo members of its tier, and each join changes these sums a little. The changes come to this:
every slot has a holder, the joiner if a join was accepted for it and else its pseudo member, and
all key material is a sum over the holders.

* `holderSum` — what the holders of the slots contribute in all.
* `Balanced` — a group's key material is the sum over the holders of its slots.
* `balanced_bootstrap` — a new group is balanced, with no joins.
* `seat_eq_ok` — what an accepted join changes.
* `Balanced.seat` — an accepted join for a free slot goes through, and the group stays balanced.
* `Balanced.eq_of_perm` — the order of the joins leaves no trace.
-/

namespace GroupKey

variable {S : Suite}

/-! ## Sums over the holders of the slots -/

section HolderSum

variable {M : Type} [AddCommGroup M]

/-- The sum of what the holders of the slots below `scale` contribute, over the slots that satisfy
`keep`: `joined` for a slot that was taken, `pseudo` for one still held by its pseudo member. -/
def holderSum (scale : Nat) (joins : List (Contribution S)) (keep : Nat → Bool)
    (joined : Contribution S → M) (pseudo : Nat → M) : M :=
  ((joins.filter fun c => keep c.slot).map joined).sum +
    ∑ i ∈ (Finset.range scale).filter fun i => i ∉ joins.map Contribution.slot ∧ keep i = true,
      pseudo i

theorem holderSum_nil (scale : Nat) (keep : Nat → Bool) (joined : Contribution S → M)
    (pseudo : Nat → M) : holderSum scale [] keep joined pseudo =
      ∑ i ∈ (Finset.range scale).filter fun i => keep i = true, pseudo i := by
  simp [holderSum]

/-- A free slot that changes hands changes the sum by the difference of the two holders. -/
theorem holderSum_concat {scale : Nat} {joins : List (Contribution S)} {c : Contribution S}
    (hc : c.slot < scale) (hfree : c.slot ∉ joins.map Contribution.slot) (keep : Nat → Bool)
    (joined : Contribution S → M) (pseudo : Nat → M) :
    holderSum scale (joins ++ [c]) keep joined pseudo =
      holderSum scale joins keep joined pseudo +
        if keep c.slot then joined c - pseudo c.slot else 0 := by
  have hrest : ((Finset.range scale).filter fun i =>
      i ∉ (joins ++ [c]).map Contribution.slot ∧ keep i = true) =
      ((Finset.range scale).filter fun i =>
        i ∉ joins.map Contribution.slot ∧ keep i = true).erase c.slot := by
    ext i
    simp only [List.map_append, List.map_cons, List.map_nil, List.mem_append, List.mem_singleton,
      Finset.mem_filter, Finset.mem_erase, not_or]
    tauto
  unfold holderSum
  rw [hrest, List.filter_append, List.map_append, List.sum_append]
  by_cases hk : keep c.slot = true
  · have hmem : c.slot ∈ (Finset.range scale).filter fun i =>
        i ∉ joins.map Contribution.slot ∧ keep i = true :=
      Finset.mem_filter.2 ⟨Finset.mem_range.2 hc, hfree, hk⟩
    rw [← Finset.add_sum_erase _ _ hmem]
    simp only [hk, List.filter_cons_of_pos, List.filter_nil, List.map_cons, List.map_nil,
      List.sum_cons, List.sum_nil, if_true]
    abel
  · rw [Finset.erase_eq_of_notMem fun h => hk (Finset.mem_filter.1 h).2.2]
    simp [hk]

theorem holderSum_perm {joins joins' : List (Contribution S)} (h : joins.Perm joins')
    (scale : Nat) (keep : Nat → Bool) (joined : Contribution S → M) (pseudo : Nat → M) :
    holderSum scale joins keep joined pseudo = holderSum scale joins' keep joined pseudo := by
  have hmem : ∀ i, i ∉ joins.map Contribution.slot ↔ i ∉ joins'.map Contribution.slot :=
    fun i => not_congr (h.map _).mem_iff
  unfold holderSum
  rw [((h.filter _).map joined).sum_eq]
  simp only [hmem]

end HolderSum

/-! ## Groups that are balanced -/

namespace ManagedGroup

/-- The group's key material is what the holders of its slots contribute: the joiners of `joins`
and, for all other slots, the pseudo members of the tier. -/
structure Balanced [S.AbelianSources] (t : SizeTier S) (joins : List (Contribution S))
    (g : ManagedGroup S) : Prop where
  /-- No slot was taken twice. -/
  nodup : (joins.map Contribution.slot).Nodup
  slot_lt : ∀ c ∈ joins, c.slot < t.scale
  scale : g.scale = t.scale
  lambda : g.info.key.lambda =
    holderSum t.scale joins (fun _ => true) (fun c => c.proof.u) t.ephemeral
  mu : g.info.key.mu = holderSum t.scale joins (fun _ => true) Contribution.combined t.combined
  length_shares : g.shares.length = t.scale
  /-- The share of a slot, free or taken, is made of what all other slots contribute to it. -/
  share : ∀ j < t.scale, g.shares[j]? =
    some (holderSum t.scale joins (fun i => i != j) (fun c => c.entry j) fun i => t.entry i j)
  slots : g.info.slots = (Bitmap.free t.scale).occupyAll (joins.map fun c => c.proof.slot)
  memberCount : g.info.memberCount.toNat = joins.length

/-! ### Shares that are replaced -/

/-- The share of slot `i` once the entries `zs`, from slot `j` on, have taken the place of those of
the pseudo member of `slot`. -/
def replaced (t : SizeTier S) (slot j : Nat) (zs : List (Option S.G1)) (i : Nat) (share : S.G1) :
    S.G1 :=
  if j ≤ i then (((zs[i - j]?).join).map fun z => share + z - t.entry slot i).getD share else share

theorem replaced_cons_none (t : SizeTier S) (slot j : Nat) (zs : List (Option S.G1)) (i : Nat) :
    replaced t slot j (none :: zs) i = replaced t slot (j + 1) zs i := by
  funext share
  unfold replaced
  rcases Nat.lt_trichotomy i j with h | rfl | h
  · rw [if_neg (by omega), if_neg (by omega)]
  · simp
  · rw [if_pos (by omega), if_pos (by omega), show i - j = i - (j + 1) + 1 by omega,
      List.getElem?_cons_succ]

theorem replaced_cons_some (t : SizeTier S) (slot j : Nat) (z : S.G1) (zs : List (Option S.G1))
    (i : Nat) (share : S.G1) : replaced t slot j (some z :: zs) i share =
      replaced t slot (j + 1) zs i (if j = i then share + z - t.entry slot i else share) := by
  unfold replaced
  rcases Nat.lt_trichotomy i j with h | rfl | h
  · rw [if_neg (by omega), if_neg (by omega), if_neg (by omega)]
  · simp
  · rw [if_pos (by omega), if_neg (show ¬j = i by omega), if_pos (show j + 1 ≤ i by omega),
      show i - j = i - (j + 1) + 1 by omega, List.getElem?_cons_succ]

/-- The shares are replaced to the end if the pseudo member has an entry wherever the proof has
one. -/
theorem replaceShares_eq_ok {t : SizeTier S} (ht : t.IsShaped) {slot : UInt32}
    (hslot : slot.toNat < t.scale) (zs : List (Option S.G1)) (j : Nat) (shares : List S.G1)
    (hscale : j + zs.length ≤ t.scale)
    (hself : ∀ k, j + k = slot.toNat → (zs[k]?).join = none) :
    ∃ shares', replaceShares t slot j zs shares = (.ok (), shares') ∧
      shares'.length = shares.length ∧
      ∀ i : Nat, shares'[i]? = (shares[i]?).map (replaced t slot.toNat j zs i) := by
  -- The loop walks the entries and counts their slots, so both vary in the induction.
  induction zs generalizing j shares with
  | nil =>
    refine ⟨shares, rfl, rfl, fun i => ?_⟩
    have hid : replaced t slot.toNat j [] i = id := funext fun share => by simp [replaced]
    rw [hid, Option.map_id, id_eq]
  | cons z zs ih =>
    have hself' : ∀ k, j + 1 + k = slot.toNat → (zs[k]?).join = none := fun k hk => by
      have := hself (k + 1) (by omega)
      rwa [List.getElem?_cons_succ] at this
    have hlen : j + 1 + zs.length ≤ t.scale := by
      rw [List.length_cons] at hscale
      omega
    cases z with
    | none =>
      obtain ⟨shares', he, hl, hs⟩ := ih (j + 1) shares hlen hself'
      exact ⟨shares', he, hl, fun i => by rw [hs i, replaced_cons_none]⟩
    | some z =>
      have hj : (UInt32.ofNat j).toNat = j :=
        UInt32.toNat_ofNat_of_lt' (by have := ht.scale_lt; omega)
      have hne : slot.toNat ≠ j := fun h => by
        have := hself 0 (by omega)
        simp at this
      -- Only the slot itself has no entry in its row, and the proof has none there either.
      have hc : t.commitment slot (.ofNat j) = .ok (t.entry slot.toNat j) := by
        have := SizeTier.commitment_eq_ok ht hslot
          (show (UInt32.ofNat j).toNat < t.scale by omega) (by omega)
        rwa [hj] at this
      obtain ⟨shares', he, hl, hs⟩ := ih (j + 1)
        (shares.modify j fun share => share + z - t.entry slot.toNat j) hlen hself'
      refine ⟨shares', ?_, ?_, fun i => ?_⟩
      · simp only [replaceShares, hc]
        exact he
      · rw [hl, List.length_modify]
      · rw [hs i, List.getElem?_modify, Option.map_eq_map, Option.map_map]
        refine congrArg (Option.map · _) (funext fun share => ?_)
        rw [replaced_cons_some, Function.comp_apply]
        by_cases hji : j = i <;> simp [hji]

/-- A proof that fits is let in: the key changes, its entries take the place of those of the pseudo
member in the shares, and the slot counts as taken. -/
theorem seat_of_fits {p : Parameters S} {directory : Directory S} {t : SizeTier S}
    (hshape : t.IsShaped) {proof : JoinProof S} (htier : p.tier proof.tier = .ok t)
    (hfits : proof.Fits t.scale) {key : PublicKey S} (hkey : directory.get? proof.keyId = some key)
    {g : ManagedGroup S} (hlen : g.shares.length = t.scale)
    (hcount : g.info.memberCount.toNat + 1 < UInt32.size) :
    ∃ share shares, g.seat p directory proof = (.ok share, { g with
        info := { g.info with
          key := g.info.key.apply (Contribution.change t ⟨proof, key⟩)
          slots := g.info.slots.occupy proof.slot
          memberCount := g.info.memberCount + 1 }
        shares }) ∧
      shares.length = t.scale ∧ shares[proof.slot.toNat]? = some share ∧
      ∀ j : Nat, shares[j]? = (g.shares[j]?).map (replaced t proof.slot.toNat 0 proof.z j) := by
  obtain ⟨shares, hreplace, hlen', hshares⟩ := replaceShares_eq_ok hshape hfits.slot_lt proof.z 0
    g.shares (by rw [hfits.length_z, zero_add]) fun k hk => by
      rw [zero_add] at hk
      rw [hk]
      exact hfits.entry?_self
  rw [hlen] at hlen'
  obtain ⟨share, hshare⟩ : ∃ share, shares[proof.slot.toNat]? = some share :=
    ⟨_, List.getElem?_eq_getElem (hlen'.symm ▸ hfits.slot_lt)⟩
  refine ⟨share, shares, ?_, hlen', hshare, hshares⟩
  simp only [ManagedGroup.seat, JoinProof.keyChange_eq_ok htier hfits.slot_lt hkey, applyShares,
    htier, hreplace, Snapshot.occupy, Snapshot.countMember?, hcount, if_true, hshare]

/-- What the share of slot `i` gains when the entries `zs`, from slot `j` on, take the place of
those of the pseudo member of `slot`. -/
def gain (t : SizeTier S) (slot j : Nat) (zs : List (Option S.G1)) (i : Nat) : S.G1 :=
  if j ≤ i then (((zs[i - j]?).join).map fun z => z - t.entry slot i).getD 0 else 0

/-- With the entries of a proof that fits, every share but the joiner's own gains the difference of
the two contributions to it. -/
theorem gain_of_fits {t : SizeTier S} {c : Contribution S} (hfits : c.proof.Fits t.scale) {j : Nat}
    (hj : j < t.scale) : gain t c.slot 0 c.proof.z j =
      if (c.slot != j) = true then c.entry j - t.entry c.slot j else 0 := by
  simp only [gain, Nat.zero_le, if_true, Nat.sub_zero]
  by_cases h : c.slot = j
  · subst h
    have := hfits.entry?_self
    simp only [JoinProof.entry?, Contribution.slot] at this ⊢
    simp [this]
  · obtain ⟨z, hz⟩ := Option.isSome_iff_exists.1 (hfits.entry?_isSome j hj (Ne.symm h))
    have he : c.entry j = z := by rw [Contribution.entry, hz, Option.getD_some]
    simp only [JoinProof.entry?] at hz
    simp [hz, he, h]

/-! ### New groups -/

theorem sum_map_members {M : Type} [AddCommGroup M] (t : SizeTier S) (f : PseudoMember S → M) :
    (t.members.map f).sum = ∑ i ∈ Finset.range t.scale, ((t.members[i]?).map f).getD 0 := by
  rw [SizeTier.scale, Finset.sum_range, ← Fin.sum_univ_fun_getElem]
  simp

theorem length_shares_ofTier (t : SizeTier S) : (Sums.ofTier t).shares.length = t.scale := by
  have h : ∀ (ms : List (PseudoMember S)) (sums : Sums S),
      (ms.foldl Sums.add sums).shares.length = sums.shares.length := by
    intro ms
    induction ms with
    | nil => exact fun _ => rfl
    | cons m ms ih => exact fun sums => by rw [List.foldl_cons, ih]; simp [Sums.add]
  simp [Sums.ofTier, h]

theorem foldl_add {M : Type} [AddCommGroup M] (part : Sums S → M) (term : PseudoMember S → M)
    (hadd : ∀ sums m, part (sums.add m) = part sums + term m) (ms : List (PseudoMember S))
    (sums : Sums S) : part (ms.foldl Sums.add sums) = part sums + (ms.map term).sum := by
  induction ms generalizing sums with
  | nil => simp
  | cons m ms ih => rw [List.foldl_cons, ih, hadd, List.map_cons, List.sum_cons, ← add_assoc]

variable [S.AbelianSources]

theorem getElem?_shares_add (sums : Sums S) (m : PseudoMember S) (j : Nat) :
    (sums.add m).shares[j]? =
      (sums.shares[j]?).map fun share => share + ((m.commitments[j]?).join).getD 0 := by
  simp only [Sums.add, List.getElem?_mapIdx]
  cases (m.commitments[j]?).join <;> simp

theorem getElem?_shares_foldl_add (ms : List (PseudoMember S)) (sums : Sums S) (j : Nat) :
    (ms.foldl Sums.add sums).shares[j]? = (sums.shares[j]?).map fun share =>
      share + (ms.map fun m => ((m.commitments[j]?).join).getD 0).sum := by
  induction ms generalizing sums with
  | nil => simp
  | cons m ms ih =>
    rw [List.foldl_cons, ih, getElem?_shares_add, Option.map_map]
    congr 1
    funext share
    simp [add_assoc]

/-- **A new group is balanced, with no joins.** -/
theorem balanced_bootstrap {p : Parameters S} (seq : UInt16) {tier : UInt16} (expiry : Timestamp)
    {t : SizeTier S} (ht : p.tier tier = .ok t) (hshape : t.IsShaped) :
    ∃ g, bootstrap p seq tier expiry = .ok g ∧ g.info.id = .new seq tier expiry ∧
      g.info.tier = tier ∧ g.info.expiry = expiry ∧ g.Balanced t [] := by
  refine ⟨_, by rw [bootstrap, ht], rfl, rfl, rfl, ?_⟩
  refine ⟨List.nodup_nil, by simp, rfl, ?_, ?_, length_shares_ofTier t, ?_, rfl,
    rfl⟩
  · show (Sums.ofTier t).lambda = _
    rw [holderSum_nil, Sums.ofTier, foldl_add Sums.lambda PseudoMember.u fun _ _ => rfl,
      sum_map_members, zero_add]
    simp [SizeTier.ephemeral]
  · show (Sums.ofTier t).mu = _
    rw [holderSum_nil, Sums.ofTier, foldl_add Sums.mu PseudoMember.combined fun _ _ => rfl,
      sum_map_members, zero_add]
    simp [SizeTier.combined]
  · intro j hj
    show (Sums.ofTier t).shares[j]? = _
    rw [holderSum_nil, Sums.ofTier, getElem?_shares_foldl_add, sum_map_members,
      List.getElem?_replicate, if_pos hj, Option.map_some, zero_add, Finset.sum_filter]
    -- The row of slot `j` itself has no entry there, so leaving it out changes nothing.
    congr 1
    refine Finset.sum_congr rfl fun i _ => ?_
    by_cases hij : i = j
    · subst hij
      have := hshape.entry?_self i
      simp only [SizeTier.entry?] at this
      cases hm : t.members[i]? <;> simp_all
    · simp only [bne_iff_ne, ne_eq, hij, not_false_iff, if_true, SizeTier.entry, SizeTier.entry?]
      cases t.members[i]? <;> rfl

/-! ### Accepted joins -/

theorem replaced_eq_add_gain (t : SizeTier S) (slot j : Nat) (zs : List (Option S.G1)) (i : Nat)
    (share : S.G1) : replaced t slot j zs i share = share + gain t slot j zs i := by
  unfold replaced gain
  split
  · cases (zs[i - j]?).join with
    | none => exact (add_zero share).symm
    | some z => exact add_sub_assoc share z _
  · exact (add_zero share).symm

theorem Balanced.slot_notMem {t : SizeTier S} {joins : List (Contribution S)}
    {g : ManagedGroup S} (h : g.Balanced t joins) {slot : UInt32} (hslot : slot.toNat < t.scale)
    (hfree : g.info.isOccupied slot = false) : slot.toNat ∉ joins.map Contribution.slot := by
  intro hmem
  obtain ⟨c, hc, he⟩ := List.mem_map.1 hmem
  have hin : slot ∈ joins.map fun c => c.proof.slot :=
    List.mem_map.2 ⟨c, hc, UInt32.toNat_inj.1 he⟩
  rw [Snapshot.isOccupied, h.slots] at hfree
  have := (Bitmap.isOccupied_occupyAll (.free t.scale) _ slot).2
    (Or.inl ⟨hin, Bitmap.reaches_of_lt (Bitmap.length_free _) hslot⟩)
  simp [hfree] at this

theorem Balanced.length_lt {t : SizeTier S} {joins : List (Contribution S)} {g : ManagedGroup S}
    (h : g.Balanced t joins) {slot : Nat} (hslot : slot < t.scale)
    (hfree : slot ∉ joins.map Contribution.slot) : joins.length < t.scale := by
  have hnodup : (slot :: joins.map Contribution.slot).Nodup := List.nodup_cons.2 ⟨hfree, h.nodup⟩
  have hsub : (slot :: joins.map Contribution.slot) ⊆ List.range t.scale := by
    intro i hi
    rcases List.mem_cons.1 hi with rfl | hi
    · exact List.mem_range.2 hslot
    · obtain ⟨c, hc, rfl⟩ := List.mem_map.1 hi
      exact List.mem_range.2 (h.slot_lt c hc)
  have := (hnodup.subperm hsub).length_le
  simpa [Nat.succ_le_iff] using this

/-- A proof that fits is let in: the key and the shares change by the difference of the two holders,
and the slot counts as taken. -/
theorem seat_eq_ok {p : Parameters S} {directory : Directory S} {t : SizeTier S}
    (hshape : t.IsShaped) {proof : JoinProof S} (htier : p.tier proof.tier = .ok t)
    (hfits : proof.Fits t.scale) {key : PublicKey S} (hkey : directory.get? proof.keyId = some key)
    {g : ManagedGroup S} (hlen : g.shares.length = t.scale)
    (hcount : g.info.memberCount.toNat + 1 < UInt32.size) :
    ∃ share shares, g.seat p directory proof = (.ok share, { g with
        info := { g.info with
          key := g.info.key.apply (Contribution.change t ⟨proof, key⟩)
          slots := g.info.slots.occupy proof.slot
          memberCount := g.info.memberCount + 1 }
        shares }) ∧
      shares.length = t.scale ∧ shares[proof.slot.toNat]? = some share ∧
      ∀ j < t.scale, shares[j]? = (g.shares[j]?).map fun share => share +
        if (proof.slot.toNat != j) = true then
          Contribution.entry ⟨proof, key⟩ j - t.entry proof.slot.toNat j
        else 0 := by
  obtain ⟨share, shares, hseat, hlen', hshare, hshares⟩ :=
    seat_of_fits hshape htier hfits hkey hlen hcount
  refine ⟨share, shares, hseat, hlen', hshare, fun j hj => ?_⟩
  rw [hshares j]
  refine congrArg (Option.map · _) (funext fun share => ?_)
  rw [replaced_eq_add_gain, show gain t proof.slot.toNat 0 proof.z j = _ from
    gain_of_fits (c := ⟨proof, key⟩) hfits hj]
  rfl

/-- **A join that fits is let in for a slot that was not taken, and the group stays balanced.** -/
theorem Balanced.seat {p : Parameters S} {directory : Directory S} {t : SizeTier S}
    (hshape : t.IsShaped) {joins : List (Contribution S)} {g : ManagedGroup S}
    (h : g.Balanced t joins) {proof : JoinProof S} (htier : p.tier proof.tier = .ok t)
    (hfits : proof.Fits t.scale) {key : PublicKey S} (hkey : directory.get? proof.keyId = some key)
    (hnew : proof.slot.toNat ∉ joins.map Contribution.slot) :
    ∃ share g', g.seat p directory proof = (.ok share, g') ∧
      g'.info.id = g.info.id ∧ g'.info.tier = g.info.tier ∧ g'.info.expiry = g.info.expiry ∧
      g'.Balanced t (joins ++ [⟨proof, key⟩]) := by
  set c : Contribution S := ⟨proof, key⟩ with hc
  have hslot : c.slot < t.scale := hfits.slot_lt
  have hcount : g.info.memberCount.toNat + 1 < UInt32.size := by
    have := h.length_lt hslot hnew
    have := hshape.scale_lt
    rw [h.memberCount]
    omega
  obtain ⟨share, shares, hseat, hlen, -, hshares⟩ :=
    seat_eq_ok hshape htier hfits hkey h.length_shares hcount
  refine ⟨share, _, hseat, rfl, rfl, rfl, ?_⟩
  refine ⟨?_, ?_, h.scale, ?_, ?_, hlen, ?_, ?_, ?_⟩
  · rw [List.map_append, List.map_cons, List.map_nil, List.nodup_append]
    refine ⟨h.nodup, List.nodup_singleton _, fun a ha b hb => ?_⟩
    rw [List.mem_singleton.1 hb]
    intro hab
    rw [hab] at ha
    exact hnew ha
  · intro d hd
    rcases List.mem_append.1 hd with hd | hd
    · exact h.slot_lt d hd
    · rw [List.mem_singleton.1 hd]
      exact hslot
  · rw [holderSum_concat hslot hnew, if_pos rfl, ← h.lambda]
    rfl
  · rw [holderSum_concat hslot hnew, if_pos rfl, ← h.mu]
    rfl
  · intro j hj
    rw [hshares j hj, h.share j hj, Option.map_some, holderSum_concat hslot hnew]
    rfl
  · rw [List.map_append, List.map_cons, List.map_nil, Bitmap.occupyAll_concat, ← h.slots]
  · show (g.info.memberCount.toNat + 1) % UInt32.size = _
    rw [Nat.mod_eq_of_lt hcount, h.memberCount, List.length_append, List.length_singleton]

/-- **The order of the joins leaves no trace.** -/
theorem Balanced.eq_of_perm {t : SizeTier S} {joins joins' : List (Contribution S)}
    {g g' : ManagedGroup S} (h : g.Balanced t joins) (h' : g'.Balanced t joins')
    (hperm : joins.Perm joins') (hid : g.info.id = g'.info.id)
    (htier : g.info.tier = g'.info.tier) (hexpiry : g.info.expiry = g'.info.expiry) : g = g' := by
  have hlambda : g.info.key.lambda = g'.info.key.lambda := by
    rw [h.lambda, h'.lambda, holderSum_perm hperm]
  have hmu : g.info.key.mu = g'.info.key.mu := by rw [h.mu, h'.mu, holderSum_perm hperm]
  have hslots : g.info.slots = g'.info.slots := by
    rw [h.slots, h'.slots, Bitmap.occupyAll_perm _ (hperm.map _)]
  have hcount : g.info.memberCount = g'.info.memberCount := by
    rw [← UInt32.toNat_inj, h.memberCount, h'.memberCount, hperm.length_eq]
  have hshares : g.shares = g'.shares := by
    apply List.ext_getElem?
    intro j
    by_cases hj : j < t.scale
    · rw [h.share j hj, h'.share j hj, holderSum_perm hperm]
    · rw [List.getElem?_eq_none (by rw [h.length_shares]; omega),
        List.getElem?_eq_none (by rw [h'.length_shares]; omega)]
  have hscale : g.scale = g'.scale := by rw [h.scale, h'.scale]
  obtain ⟨⟨_, _, _, _, ⟨_, _⟩, _⟩, _, _⟩ := g
  obtain ⟨⟨_, _, _, _, ⟨_, _⟩, _⟩, _, _⟩ := g'
  simp only at hid htier hexpiry hlambda hmu hslots hcount hshares hscale
  simp only [hid, htier, hexpiry, hlambda, hmu, hslots, hcount, hshares, hscale]

end ManagedGroup

end GroupKey
