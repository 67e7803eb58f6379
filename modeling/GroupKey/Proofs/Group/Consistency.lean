import GroupKey.Proofs.Group.Balance
import GroupKey.Proofs.Group.Tally

/-!
# Groups whose fields agree

A group held by its coordinator says the same thing more than once: the name tells tier and expiry,
the scale follows from the tier, the number of members from the bitmap. Nothing ties these fields
together but the code that writes them, and a join can fail halfway. This file says when they agree
and shows that founding a group and seating a member, in full or in part, keep it so. It asks
nothing of the parameters but that slots can be numbered.

* `Bitmap.setBits` — the positions of the set bits of a bitmap.
* `ManagedGroup.IsConsistent` — the fields of a group agree.
* `ManagedGroup.seat_cases` — a join that fails after its check has occupied no slot.
* `IsConsistent.isFull_iff` — the count and the bitmap agree on whether there is room.
* `IsConsistent.count_lt` — a group with a free slot can count one more member.
-/

namespace GroupKey

variable {S : Suite}

/-! ## Set bits -/

namespace Bitmap

/-- The positions of the set bits, counted from the most significant bit of the first byte. -/
def setBits (b : Bitmap) : Finset Nat :=
  (Finset.range (b.bytes.length * 8)).filter fun i =>
    (b.bytes.getD (i / 8) 0).toNat.testBit (7 - i % 8)

theorem mem_setBits {b : Bitmap} {i : Nat} :
    i ∈ b.setBits ↔ i < b.bytes.length * 8 ∧
      (b.bytes.getD (i / 8) 0).toNat.testBit (7 - i % 8) = true := by
  rw [setBits, Finset.mem_filter, Finset.mem_range]

theorem isOccupied_iff_mem_setBits (b : Bitmap) (slot : UInt32) :
    b.isOccupied slot = true ↔ slot.toNat ∈ b.setBits := by
  rw [mem_setBits, isOccupied]
  by_cases h : slot.toNat / 8 < b.bytes.length
  · simp only [List.getElem?_eq_getElem h, and_mask_eq_testBit, List.getD_eq_getElem?_getD,
      Option.getD_some]
    exact ⟨fun ht => ⟨by omega, ht⟩, fun ht => ht.2⟩
  · simp only [List.getElem?_eq_none (Nat.le_of_not_lt h), Bool.false_eq_true, false_iff]
    omega

end Bitmap

/-- Every slot of every tier has a number of four bytes. -/
def Parameters.HasNumberedSlots (p : Parameters S) : Prop :=
  ∀ (tier : UInt16) (scale : Nat), p.scale tier = .ok scale → scale < UInt32.size

theorem Parameters.IsSetup.hasNumberedSlots {p : Parameters S} {secrets : SlotSecrets S}
    (h : p.IsSetup secrets) : p.HasNumberedSlots := by
  intro tier scale hs
  obtain ⟨t, ht, rfl⟩ := Parameters.scale_eq_ok.1 hs
  exact (h.isShaped ht).scale_lt

namespace Snapshot

variable {g : Snapshot S} {scale : Nat} {taken : Finset Nat}

/-- The slots that a snapshot counts are those whose bits are set. -/
theorem Tallies.setBits_eq (h : g.Tallies scale taken) (hscale : scale < UInt32.size) :
    g.slots.setBits = taken := by
  ext i
  have hlt : ∀ i ∈ g.slots.setBits, i < UInt32.size := by
    intro i hi
    have hi := (Bitmap.mem_setBits.1 hi).1
    rw [h.length, Bitmap.byteCount] at hi
    have : UInt32.size = 4294967296 := rfl
    omega
  have hslot : i < UInt32.size → (i ∈ g.slots.setBits ↔ i ∈ taken) := by
    intro hi
    have hocc := h.isOccupied_iff (.ofNat i)
    rwa [isOccupied, Bitmap.isOccupied_iff_mem_setBits, UInt32.toNat_ofNat_of_lt' hi] at hocc
  constructor
  · intro hi
    exact (hslot (hlt i hi)).1 hi
  · intro hi
    exact (hslot ((h.lt i hi).trans hscale)).2 hi

end Snapshot

namespace ManagedGroup

/-- The fields of a group that is held under the name `id` agree. -/
structure IsConsistent (p : Parameters S) (id : GroupId) (g : ManagedGroup S) : Prop where
  id : g.info.id = id
  tag : g.info.id.IsWellFormed
  tier : g.info.id.tier = g.info.tier
  expiry : g.info.id.expiry = g.info.expiry
  scale : p.scale g.info.tier = .ok g.scale
  length_shares : g.shares.length = g.scale
  length_slots : g.info.slots.bytes.length = Bitmap.byteCount g.scale
  memberCount : g.info.memberCount.toNat = g.info.slots.setBits.card
  setBits_lt : ∀ i ∈ g.info.slots.setBits, i < g.scale

variable {p : Parameters S} {id : GroupId} {g g' : ManagedGroup S}

theorem IsConsistent.tallies (h : g.IsConsistent p id) :
    g.info.Tallies g.scale g.info.slots.setBits where
  length := h.length_slots
  lt := h.setBits_lt
  isOccupied_iff := g.info.slots.isOccupied_iff_mem_setBits
  count := h.memberCount

theorem IsConsistent.scale_eq (h : g.IsConsistent p id) {t : SizeTier S}
    (ht : p.tier g.info.tier = .ok t) : g.scale = t.scale := by
  have hscale := h.scale
  rw [Parameters.scale_of_tier ht] at hscale
  exact (Except.ok.inj hscale).symm

theorem IsConsistent.memberCount_le (h : g.IsConsistent p id) :
    g.info.memberCount.toNat ≤ g.scale := by
  rw [h.memberCount, ← Finset.card_range g.scale]
  exact Finset.card_le_card fun i hi => Finset.mem_range.2 (h.setBits_lt i hi)

theorem IsConsistent.count_lt (h : g.IsConsistent p id) (hp : p.HasNumberedSlots) {slot : UInt32}
    (hslot : slot.toNat < g.scale) (hfree : g.info.isOccupied slot = false) :
    g.info.memberCount.toNat + 1 < UInt32.size := by
  have hlt := h.tallies.count_lt hslot (h.tallies.notMem hfree)
  have hsize := hp _ _ h.scale
  omega

/-- A group that keeps its name, its tier and its scale stays consistent if it tallies. -/
theorem IsConsistent.of_tallies (h : g.IsConsistent p id) (hp : p.HasNumberedSlots)
    (hid : g'.info.id = g.info.id) (htier : g'.info.tier = g.info.tier)
    (hexpiry : g'.info.expiry = g.info.expiry) (hscale : g'.scale = g.scale)
    (hshares : g'.shares.length = g.shares.length) {taken : Finset Nat}
    (ht : g'.info.Tallies g.scale taken) : g'.IsConsistent p id := by
  have hbits := ht.setBits_eq (hp _ _ h.scale)
  refine ⟨hid.trans h.id, hid ▸ h.tag, ?_, ?_, ?_, ?_, ?_, ?_, ?_⟩
  · rw [hid, htier, h.tier]
  · rw [hid, hexpiry, h.expiry]
  · rw [htier, hscale, h.scale]
  · rw [hshares, hscale, h.length_shares]
  · rw [hscale, ht.length]
  · rw [hbits, ht.count]
  · rw [hbits, hscale]
    exact ht.lt

/-! ## Room -/

/-- **A group is full exactly when it has no free slot.** -/
theorem IsConsistent.isFull_iff (h : g.IsConsistent p id) (hp : p.HasNumberedSlots) :
    g.isFull = true ↔ g.freeSlots = [] := by
  have hsize := hp _ _ h.scale
  have hsub : g.info.slots.setBits ⊆ Finset.range g.scale := fun i hi =>
    Finset.mem_range.2 (h.setBits_lt i hi)
  have hocc : ∀ i < g.scale, g.info.isOccupied (.ofNat i) = true ↔ i ∈ g.info.slots.setBits := by
    intro i hi
    rw [Snapshot.isOccupied, Bitmap.isOccupied_iff_mem_setBits,
      UInt32.toNat_ofNat_of_lt' (hi.trans hsize)]
  have hfree : g.freeSlots = [] ↔ Finset.range g.scale ⊆ g.info.slots.setBits := by
    rw [(g.lists_freeSlots hsize).eq_nil_iff]
    constructor
    · intro hall i hi
      have hi := Finset.mem_range.1 hi
      refine (hocc i hi).1 (Bool.of_not_eq_false fun hfree => hall (.ofNat i) ⟨?_, hfree⟩)
      rwa [UInt32.toNat_ofNat_of_lt' (hi.trans hsize)]
    · rintro hall slot ⟨hlt, hfree⟩
      have hset := (hocc _ hlt).2 (hall (Finset.mem_range.2 hlt))
      rw [UInt32.ofNat_toNat, hfree] at hset
      exact Bool.false_ne_true hset
  have hcard : g.isFull = true ↔ (Finset.range g.scale).card ≤ g.info.slots.setBits.card := by
    simp [isFull, h.memberCount]
  rw [hfree, hcard]
  constructor
  · intro hle
    rw [Finset.eq_of_subset_of_card_le hsub hle]
  · exact fun hle => Finset.card_le_card hle

/-! ## New groups -/

/-- **A new group is consistent**, and there is one for every tier. -/
theorem isConsistent_bootstrap (hp : p.HasNumberedSlots) {tier : UInt16} {scale : Nat}
    (hs : p.scale tier = .ok scale) (seq : UInt16) (expiry : Timestamp) :
    ∃ g, bootstrap p seq tier expiry = .ok g ∧ g.info.id = .new seq tier expiry ∧
      g.IsConsistent p g.info.id := by
  obtain ⟨t, ht, rfl⟩ := Parameters.scale_eq_ok.1 hs
  refine ⟨_, by rw [bootstrap, ht], rfl, ?_⟩
  have hfree : (Bitmap.free t.scale).setBits = ∅ :=
    (Snapshot.tallies_free (g := ⟨tier, 0, .new seq tier expiry, .free t.scale,
      ⟨(Sums.ofTier t).lambda, (Sums.ofTier t).mu⟩, expiry⟩) rfl rfl).setBits_eq (hp _ _ hs)
  exact ⟨rfl, rfl, rfl, rfl, hs, length_shares_ofTier t, Bitmap.length_free _, by simp [hfree],
    by simp [hfree]⟩

/-! ## Joins -/

theorem length_replaceShares (t : SizeTier S) (slot : UInt32) (zs : List (Option S.G1)) (j : Nat)
    (shares : List S.G1) : (replaceShares t slot j zs shares).2.length = shares.length := by
  induction zs generalizing j shares with
  | nil => rfl
  | cons z zs ih =>
    cases z with
    | none => exact ih (j + 1) shares
    | some z =>
      simp only [replaceShares]
      cases t.commitment slot (.ofNat j) with
      | error e => rfl
      | ok displaced => rw [ih, List.length_modify]

/-- **What a join does to its group.** If it fails, no slot was occupied and no member counted,
though key and shares may have changed. -/
theorem seat_cases (p : Parameters S) (directory : Directory S) (proof : JoinProof S)
    (g : ManagedGroup S) (hslot : proof.slot.toNat < g.shares.length)
    (hcount : g.info.memberCount.toNat + 1 < UInt32.size) :
    ∃ key shares, shares.length = g.shares.length ∧
      ((∃ e, g.seat p directory proof =
          (.error e, { g with info := { g.info with key }, shares })) ∨
        ∃ share, g.seat p directory proof = (.ok share, { g with
          info := { g.info with
            key
            slots := g.info.slots.occupy proof.slot
            memberCount := g.info.memberCount + 1 }
          shares })) := by
  unfold seat
  cases hchange : proof.keyChange p directory with
  | error e => exact ⟨g.info.key, g.shares, rfl, .inl ⟨_, rfl⟩⟩
  | ok change =>
    simp only [applyShares]
    cases ht : p.tier proof.tier with
    | error e => exact ⟨g.info.key.apply change, g.shares, rfl, .inl ⟨_, rfl⟩⟩
    | ok t =>
      have hlength := length_replaceShares t proof.slot proof.z 0 g.shares
      rcases hr : replaceShares t proof.slot 0 proof.z g.shares with ⟨result, shares⟩
      rw [hr] at hlength
      refine ⟨g.info.key.apply change, shares, hlength, ?_⟩
      cases result with
      | error e => exact .inl ⟨.agreement e, by simp only [hr]⟩
      | ok _ =>
        obtain ⟨share, hshare⟩ : ∃ share, shares[proof.slot.toNat]? = some share :=
          ⟨_, List.getElem?_eq_getElem (hlength ▸ hslot)⟩
        refine .inr ⟨share, ?_⟩
        simp only [hr, Snapshot.occupy, Snapshot.countMember?, hcount, if_true, hshare]

/-- **Seating a member keeps a group consistent**, whether it succeeds or not. The group keeps its
name, and its slots stay occupied; if the member was seated, its slot is occupied as well. -/
theorem IsConsistent.seat (h : g.IsConsistent p id) (hp : p.HasNumberedSlots)
    {directory : Directory S} {proof : JoinProof S} (hslot : proof.slot.toNat < g.scale)
    (hfree : g.info.isOccupied proof.slot = false) :
    let r := g.seat p directory proof
    r.2.IsConsistent p id ∧ r.2.scale = g.scale ∧
      (∀ slot, g.info.isOccupied slot = true → r.2.info.isOccupied slot = true) ∧
      ((∃ e, r.1 = .error e) ∧ r.2.info.isOccupied proof.slot = false ∨
        (∃ share, r.1 = .ok share) ∧ r.2.info.isOccupied proof.slot = true) := by
  have hsize := hp _ _ h.scale
  have hnew := h.tallies.notMem hfree
  obtain ⟨key, shares, hlength, ⟨e, hseat⟩ | ⟨share, hseat⟩⟩ :=
    seat_cases p directory proof g (h.length_shares ▸ hslot) (h.count_lt hp hslot hfree)
  · rw [hseat]
    refine ⟨?_, rfl, fun _ hocc => hocc, .inl ⟨⟨e, rfl⟩, hfree⟩⟩
    have htallies : Snapshot.Tallies { g.info with key } g.scale g.info.slots.setBits :=
      ⟨h.length_slots, h.setBits_lt, g.info.slots.isOccupied_iff_mem_setBits, h.memberCount⟩
    exact h.of_tallies hp rfl rfl rfl rfl hlength htallies
  · rw [hseat]
    have hreach := Bitmap.reaches_of_lt h.length_slots hslot
    refine ⟨?_, rfl, fun slot hocc => ?_, .inr ⟨⟨share, rfl⟩, ?_⟩⟩
    · exact h.of_tallies hp rfl rfl rfl rfl hlength (h.tallies.fill hsize hslot hnew rfl rfl)
    · exact (Bitmap.isOccupied_occupy _ _ _).2 (.inr hocc)
    · exact (Bitmap.isOccupied_occupy _ _ _).2 (.inl ⟨rfl, hreach⟩)

end ManagedGroup

end GroupKey
