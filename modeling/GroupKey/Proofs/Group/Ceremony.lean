import GroupKey.Proofs.Agreement.Engine
import GroupKey.Proofs.Group.Balance
import GroupKey.Proofs.Suite.Exponents

/-!
# A group that fills up

Nodes join a new group one after the other: each makes a proof for a slot that nobody has, the
coordinator lets it in, the joiner completes its join with the share of its slot, and the members
that are there already follow. Whatever the order and the slots, nobody falls out of step: the
members have the encryption key of the group and can decrypt what is encrypted to it, and so can
whoever holds the unpublished entry of a slot that is still free.

* `Ceremony` — the group, its members, and how each operation ended.
* `Ceremony.Run` — the ceremonies that honest nodes can bring about.
* `Ceremony.InStep` — the invariant: all decryption keys open the encryption key of the group.
* `Ceremony.members_decrypt` — what follows for every message.
-/

namespace GroupKey

variable {S : Suite} {ρ : Type}

/-- A group with the engines of its members. -/
structure Ceremony (S : Suite) where
  directory : Directory S
  group : ManagedGroup S
  members : List (Engine S)
  /-- The slots that were taken, in the order of the members. -/
  slots : List UInt32
  /-- What the completions of the joins answered. -/
  derived : List Bool
  /-- Whether the coordinator and the members that were there could take the joins in. -/
  folded : List Bool

namespace Ceremony

/-- A join with a given proof: the coordinator lets it in, the joiner completes its join with the
share of its slot, and all members follow. -/
def letIn (p : Parameters S) (directory : Directory S) (joiner : Engine S) (proof : JoinProof S)
    (s : Ceremony S) : Ceremony S :=
  match s.group.seat p directory proof with
  | (.error _, group) => { s with directory, group, folded := s.folded ++ [false] }
  | (.ok share, group) =>
    let (derived, joiner) := joiner.derive group.info.id proof.slot share group.info.key
    let followed := s.members.map fun member => member.absorb p directory proof
    { directory
      group
      members := followed.map (·.2) ++ [joiner]
      slots := s.slots ++ [proof.slot]
      derived := s.derived ++ [derived]
      folded := s.folded ++ followed.map (·.1.isOk) }

/-- The join of a node for a slot, under the encryption key that the group has; none if the node
cannot make a proof. -/
def join? [Generator ρ] (p : Parameters S) (joiner : Engine S) (slot : UInt32) (r : ρ)
    (s : Ceremony S) : Option (Ceremony S) :=
  let out := joiner.prove p s.group.info.id s.group.info.key s.group.info.tier slot ⟨s.directory, r⟩
  match out.result with
  | .error _ => none
  | .ok proof => some (s.letIn p out.resources.directory out.engine proof)

/-- The ceremonies that begin with a new group. Between two joins anyone may publish keys, and a
joiner may have done anything with its engine before. -/
inductive Run (p : Parameters S) : Ceremony S → Prop
  | start (directory : Directory S) {seq tier : UInt16} {expiry : Timestamp}
    {group : ManagedGroup S} : ManagedGroup.bootstrap p seq tier expiry = .ok group →
    Run p ⟨directory, group, [], [], [], []⟩
  | upload {s : Ceremony S} (id : UInt32) (key : PublicKey S) :
    Run p s → Run p { s with directory := (s.directory.upload id key).2 }
  | join {s s' : Ceremony S} {joiner : Engine S} {slot : UInt32} {ρ : Type} [Generator ρ] {r : ρ} :
    Run p s → Engine.Reachable p s.directory joiner → slot ∉ s.slots →
    s.join? p joiner slot r = some s' → Run p s'

/-- All decryption keys open the encryption key of the group. -/
structure InStep [S.BilinearPairing] (p : Parameters S) (secrets : SlotSecrets S) (t : SizeTier S)
    (s : Ceremony S) : Prop where
  tier : p.tier s.group.info.tier = .ok t
  derived : ∀ answer ∈ s.derived, answer = true
  folded : ∀ answer ∈ s.folded, answer = true
  balanced : ∃ joins, s.group.Balanced t joins ∧
    joins.map Contribution.slot = s.slots.map UInt32.toNat
  free : ∀ slot : UInt32, slot.toNat < t.scale → slot ∉ s.slots → ∃ share diagonal,
    s.group.shares[slot.toNat]? = some share ∧
      secrets.diagonal? s.group.info.tier slot = some diagonal ∧
      p.Opens (share + diagonal) slot.toNat s.group.info.key
  member : ∀ e ∈ s.members, ∃ m, e.membership = some m ∧ m.slot ∈ s.slots ∧
    m.slot.toNat < t.scale ∧ m.key = s.group.info.key ∧
    p.Opens m.decryptionKey m.slot.toNat s.group.info.key

variable [S.BilinearPairing] {p : Parameters S} {secrets : SlotSecrets S} {t : SizeTier S}

/-! ## New groups -/

/-- In a new group the unpublished entry completes the share of every slot. -/
theorem opens_bootstrap (hp : p.IsSetup secrets) {g : ManagedGroup S}
    (ht : p.tier g.info.tier = .ok t) (h : g.Balanced t []) {slot : UInt32}
    (hslot : slot.toNat < t.scale) : ∃ share diagonal, g.shares[slot.toNat]? = some share ∧
      secrets.diagonal? g.info.tier slot = some diagonal ∧
      p.Opens (share + diagonal) slot.toNat g.info.key := by
  obtain ⟨hrow, diagonal, hdiagonal, hcarries⟩ := hp.carries_row ht hslot
  refine ⟨_, diagonal, h.share _ hslot, hdiagonal, ?_⟩
  unfold Parameters.Opens
  rw [h.lambda, h.mu]
  simp only [holderSum_nil, Finset.filter_true]
  -- The row of the slot itself stands apart from all others.
  have hmem : slot.toNat ∈ Finset.range t.scale := Finset.mem_range.2 hslot
  rw [← Finset.add_sum_erase _ t.combined hmem, ← Finset.add_sum_erase _ t.ephemeral hmem,
    add_comm _ diagonal]
  have hrest : ((Finset.range t.scale).filter fun i => (i != slot.toNat) = true) =
      (Finset.range t.scale).erase slot.toNat := by
    ext i
    simp [and_comm]
  rw [hrest]
  refine hcarries.add (Parameters.carries_sum _ _ _ _ ?_)
  intro i hi
  obtain ⟨hne, hi⟩ := Finset.mem_erase.1 hi
  exact (hp.carries_row ht (Finset.mem_range.1 hi)).1 _ hslot hne

theorem InStep.start (hp : p.IsSetup secrets) {tier : UInt16} (directory : Directory S)
    {seq : UInt16} {expiry : Timestamp} {g : ManagedGroup S}
    (hg : ManagedGroup.bootstrap p seq tier expiry = .ok g) :
    ∃ t, InStep p secrets t ⟨directory, g, [], [], [], []⟩ := by
  cases ht : p.tier tier with
  | error err => rw [ManagedGroup.bootstrap, ht] at hg; simp at hg
  | ok t =>
    obtain ⟨g', hg', -, htier, -, hbal⟩ :=
      ManagedGroup.balanced_bootstrap seq expiry ht (hp.isShaped ht)
    obtain rfl : g = g' := Except.ok.inj (hg.symm.trans hg')
    rw [← htier] at ht
    refine ⟨t, ht, by simp, by simp, ⟨[], hbal, rfl⟩, fun slot hslot _ => ?_, by simp⟩
    exact opens_bootstrap hp ht hbal hslot

/-! ## Joins -/

section Join

variable {c : Contribution S} {reserved : S.G1} {key : EncryptionKey S}

/-- With the share of its slot the joiner opens the new key: its entry takes the place of the
unpublished one. -/
theorem opens_joiner (hp : p.IsSetup secrets) {number : UInt16} (ht : p.tier number = .ok t)
    (hmade : c.IsMade p t reserved) {share diagonal : S.G1}
    (hdiagonal : secrets.diagonal? number c.proof.slot = some diagonal)
    (h : p.Opens (share + diagonal) c.slot key) :
    p.Opens (share + reserved) c.slot (key.apply (c.change t)) := by
  obtain ⟨-, diagonal', hdiagonal', hcarries⟩ := hp.carries_row ht hmade.fits.slot_lt
  obtain rfl : diagonal = diagonal' := Option.some.inj (hdiagonal.symm.trans hdiagonal')
  have hnew := h.replace hmade.reserved hcarries
  rwa [show share + diagonal + (reserved - diagonal) = share + reserved by abel] at hnew

/-- Whoever opens the key at another slot opens the new key once its own follows, if the entry of
the joiner there is as it should be. -/
theorem opens_other (hp : p.IsSetup secrets) {number : UInt16} (ht : p.tier number = .ok t)
    (hslot : c.slot < t.scale) {d : S.G1} {j : Nat} (hj : j < t.scale) (hne : j ≠ c.slot)
    (hentry : p.Carries (c.entry j) j c.combined c.proof.u) (h : p.Opens d j key) :
    p.Opens (d + (c.entry j - t.entry c.slot j)) j (key.apply (c.change t)) :=
  h.replace hentry ((hp.carries_row ht hslot).1 j hj (Ne.symm hne))

end Join

/-- A join that an honest node makes for a slot that nobody has keeps everyone in step. -/
theorem InStep.letIn (hp : p.IsSetup secrets) {s : Ceremony S} (h : InStep p secrets t s)
    {directory : Directory S} {joiner : Engine S} {proof : JoinProof S} {key : PublicKey S}
    {reserved : S.G1} (hmade : Contribution.IsMade p t ⟨proof, key⟩ reserved)
    (htier : proof.tier = s.group.info.tier) (hkey : directory.get? proof.keyId = some key)
    (hslot : proof.slot ∉ s.slots) (hpending : joiner.pending = some ⟨s.group.info.id, proof.slot,
      reserved, s.group.info.key.apply (Contribution.change t ⟨proof, key⟩)⟩) :
    InStep p secrets t (s.letIn p directory joiner proof) := by
  obtain ⟨joins, hbal, hjoins⟩ := h.balanced
  have hshape := hp.isShaped h.tier
  have hptier : p.tier proof.tier = .ok t := by rw [htier, h.tier]
  have hnew : proof.slot.toNat ∉ joins.map Contribution.slot := by
    rw [hjoins, List.mem_map]
    rintro ⟨slot, hmem, heq⟩
    exact hslot (UInt32.toNat_inj.1 heq ▸ hmem)
  have hcount : s.group.info.memberCount.toNat + 1 < UInt32.size := by
    have := hbal.length_lt hmade.fits.slot_lt hnew
    have := hshape.scale_lt
    rw [hbal.memberCount]
    omega
  obtain ⟨share, shares, hseat, hlen, hshare, hshares⟩ :=
    ManagedGroup.seat_eq_ok hshape hptier hmade.fits hkey hbal.length_shares hcount
  obtain ⟨share', g', hseat', hid, hgtier, -, hbal'⟩ :=
    hbal.seat hshape hptier hmade.fits hkey hnew
  rw [hseat] at hseat'
  obtain ⟨rfl, rfl⟩ : share = share' ∧ _ = g' := by simpa using hseat'
  set c : Contribution S := ⟨proof, key⟩ with hc
  -- The share of the joiner's own slot is the one of before.
  have hown : s.group.shares[proof.slot.toNat]? = some share := by
    have := hshares proof.slot.toNat hmade.fits.slot_lt
    rw [hshare] at this
    simpa using this.symm
  have hderive : joiner.derive s.group.info.id proof.slot share
      (s.group.info.key.apply (c.change t)) = (true, { joiner with
        pending := none
        membership := some ⟨s.group.info.id, proof.slot,
          s.group.info.key.apply (c.change t), share + reserved⟩ }) := by
    simp [Engine.derive, hpending]
  have hfollow : ∀ e ∈ s.members, ∃ m, e.membership = some m ∧ m.slot ∈ s.slots ∧
      m.slot.toNat < t.scale ∧ p.Opens m.decryptionKey m.slot.toNat s.group.info.key ∧
      e.absorb p directory proof = (.ok (), { e with membership := some { m with
        key := s.group.info.key.apply (c.change t)
        decryptionKey := m.decryptionKey + c.entry m.slot.toNat -
          t.entry proof.slot.toNat m.slot.toNat } }) := by
    intro e he
    obtain ⟨m, hm, hmslot, hmlt, hmkey, hmopens⟩ := h.member e he
    refine ⟨m, hm, hmslot, hmlt, hmopens, ?_⟩
    have habsorbed := Engine.absorbed_eq_ok hshape hptier hmade.fits hkey hmlt
      fun heq => hslot (heq ▸ hmslot)
    simp only [Engine.absorb, hm, habsorbed, hmkey]
    rfl
  simp only [Ceremony.letIn, hseat, hderive]
  refine ⟨h.tier, ?_, ?_, ⟨joins ++ [c], hbal', ?_⟩, ?_, ?_⟩
  · intro answer hanswer
    rcases List.mem_append.1 hanswer with hanswer | hanswer
    · exact h.derived answer hanswer
    · exact List.mem_singleton.1 hanswer
  · intro answer hanswer
    simp only [List.mem_append, List.mem_map] at hanswer
    rcases hanswer with hanswer | ⟨_, ⟨e, he, rfl⟩, rfl⟩
    · exact h.folded answer hanswer
    · obtain ⟨m, -, -, -, -, habsorb⟩ := hfollow e he
      rw [habsorb]
      rfl
  · rw [List.map_append, List.map_append, hjoins]
    rfl
  · intro slot hlt hfree
    rw [List.mem_append, List.mem_singleton, not_or] at hfree
    obtain ⟨d, diagonal, hd, hdiagonal, hopens⟩ := h.free slot hlt hfree.1
    have hne : slot.toNat ≠ c.slot := fun heq => hfree.2 (UInt32.toNat_inj.1 heq)
    refine ⟨d + (c.entry slot.toNat - t.entry c.slot slot.toNat), diagonal, ?_, hdiagonal, ?_⟩
    · have hother : (proof.slot.toNat != slot.toNat) = true := bne_iff_ne.2 (Ne.symm hne)
      rw [hshares _ hlt, hd, Option.map_some, if_pos hother]
      rfl
    · have := opens_other hp h.tier hmade.fits.slot_lt hlt hne (hmade.carries _ hlt hne) hopens
      rwa [add_right_comm] at this
  · intro e he
    simp only [List.mem_append, List.mem_map, List.mem_singleton] at he
    rcases he with ⟨_, ⟨e, he, rfl⟩, rfl⟩ | rfl
    · obtain ⟨m, -, hmslot, hmlt, hopens, habsorb⟩ := hfollow e he
      rw [habsorb]
      refine ⟨_, rfl, List.mem_append_left _ hmslot, hmlt, rfl, ?_⟩
      have hne : m.slot.toNat ≠ c.slot := fun heq => hslot (UInt32.toNat_inj.1 heq ▸ hmslot)
      have := opens_other hp h.tier hmade.fits.slot_lt hmlt hne (hmade.carries _ hmlt hne) hopens
      rwa [← add_sub_assoc] at this
    · refine ⟨_, rfl, List.mem_append_right _ (List.mem_singleton_self _), hmade.fits.slot_lt, rfl,
        ?_⟩
      obtain ⟨d, diagonal, hd, hdiagonal, hopens⟩ := h.free proof.slot hmade.fits.slot_lt hslot
      obtain rfl : share = d := Option.some.inj (hown.symm.trans hd)
      exact opens_joiner hp h.tier hmade hdiagonal hopens

/-- **Every run keeps everyone in step.** -/
theorem Run.inStep (hp : p.IsSetup secrets) {s : Ceremony S} (h : Run p s) :
    ∃ t, InStep p secrets t s := by
  induction h with
  | start directory hg => exact InStep.start hp directory hg
  | upload id key _ ih =>
    obtain ⟨t, h⟩ := ih
    exact ⟨t, h.tier, h.derived, h.folded, h.balanced, h.free, h.member⟩
  | @join s s' joiner slot ρ _ r _ hjoiner hslot hjoin ih =>
    obtain ⟨t, h⟩ := ih
    unfold join? at hjoin
    simp only at hjoin
    split at hjoin
    · simp at hjoin
    · next proof hok =>
      obtain rfl := Option.some.inj hjoin
      obtain ⟨t', key, reserved, ht', hmade, htier, rfl, hkey, hpending⟩ :=
        Engine.prove_ok hp hjoiner.honest hok
      obtain rfl : t = t' := Except.ok.inj (h.tier.symm.trans ht')
      exact ⟨t, h.letIn hp hmade htier hkey hslot hpending⟩

/-! ## Messages -/

/-- **Members stay in step and decrypt.** Let the parameters come from a successful setup. In every
ceremony all joins are completed and taken in, and all members have the encryption key of the
group. Every message to a list of keys that holds it is decrypted by all members, and through every
free slot by its share and its unpublished entry. -/
theorem members_decrypt [Generator ρ] {level : UInt32} {maxGroupSize sizeStep : Nat} {r r' : ρ}
    (hsetup : Parameters.setup level maxGroupSize sizeStep r = (.ok (p, secrets), r'))
    {s : Ceremony S} (h : Run p s) :
    (∀ answer ∈ s.derived, answer = true) ∧
      (∀ answer ∈ s.folded, answer = true) ∧
      (∀ e ∈ s.members, ∃ m, e.membership = some m ∧ m.key = s.group.info.key) ∧
      ∀ (message : Bytes) (keys : List (EncryptionKey S)) (i : Nat),
        keys[i]? = some s.group.info.key → ∀ (τ : Type) [Generator τ] (omega : τ),
        (∀ e ∈ s.members,
          e.decrypt p (Ciphertext.encrypt p message keys omega).1 i = .ok message) ∧
        ∀ slot : UInt32, slot.toNat < s.group.scale → slot ∉ s.slots → ∃ share diagonal,
          s.group.shares[slot.toNat]? = some share ∧
          secrets.diagonal? s.group.info.tier slot = some diagonal ∧
          (Ciphertext.encrypt p message keys omega).1.decryptWith p (share + diagonal) slot i =
            .ok message := by
  have hp := Parameters.isSetup_of_setup hsetup
  obtain ⟨t, hstep⟩ := h.inStep hp
  obtain ⟨joins, hbal, -⟩ := hstep.balanced
  have hscale : t.scale ≤ p.h.length := (hp.scale _ t (Parameters.tier_eq_ok.1 hstep.tier)).2
  refine ⟨hstep.derived, hstep.folded, ?_, fun message keys i hi τ _ omega => ⟨?_, ?_⟩⟩
  · intro e he
    obtain ⟨m, hm, -, -, hkey, -⟩ := hstep.member e he
    exact ⟨m, hm, hkey⟩
  · intro e he
    obtain ⟨m, hm, -, hlt, -, hopens⟩ := hstep.member e he
    rw [Engine.decrypt, hm]
    exact hp.decryptWith_encrypt (Nat.lt_of_lt_of_le hlt hscale) hopens message hi omega
  · intro slot hslot hfree
    rw [hbal.scale] at hslot
    obtain ⟨share, diagonal, hshare, hdiagonal, hopens⟩ := hstep.free slot hslot hfree
    exact ⟨share, diagonal, hshare, hdiagonal,
      hp.decryptWith_encrypt (Nat.lt_of_lt_of_le hslot hscale) hopens message hi omega⟩

/-! ### A ceremony of two -/

/-- A new group of two slots. -/
def sampleStart : Ceremony .sample :=
  ⟨.empty, ((ManagedGroup.bootstrap sampleSetup.1 0 0 ⟨9⟩).toOption).get (by decide +kernel), [],
    [],
    [], []⟩

/-- The second slot is taken first. -/
def sampleFull? : Option (Ceremony .sample) :=
  (sampleStart.join? sampleSetup.1 .empty 1 (Counter.mk 20)).bind fun s =>
    s.join? sampleSetup.1 .empty 0 (Counter.mk 40)

/-- In this ceremony both members decrypt a message to their group. -/
theorem members_decrypt_two : ∃ s, sampleFull? = some s ∧ s.members.length = 2 ∧
    s.derived = [true, true] ∧ ∀ e ∈ s.members, e.decrypt sampleSetup.1
      (Ciphertext.encrypt sampleSetup.1 [1, 2, 3] [s.group.info.key] (Counter.mk 60)).1 0 =
        .ok [1, 2, 3] := by
  have hrun : sampleFull?.any (fun s => s.members.length == 2 && s.derived == [true, true]) =
      true := by
    decide +kernel
  obtain ⟨s, hs, hrun⟩ := (Option.any_eq_true _ _).1 hrun
  simp only [Bool.and_eq_true, beq_iff_eq] at hrun
  obtain ⟨s₁, hs₁, hs₂⟩ := Option.bind_eq_some_iff.1 hs
  have hstart : Run sampleSetup.1 sampleStart := .start _ (eq_ok_of_toOption (by decide +kernel))
  have hslots : (sampleStart.join? sampleSetup.1 .empty 1 (Counter.mk 20)).map (·.slots) =
      some [1] := by
    decide +kernel
  rw [hs₁] at hslots
  have h₁ : Run sampleSetup.1 s₁ := .join hstart (.empty _) (by simp [sampleStart]) hs₁
  have h₂ : Run sampleSetup.1 s := .join h₁ (.empty _) (by simp [Option.some.inj hslots]) hs₂
  obtain ⟨-, -, -, hdecrypt⟩ := members_decrypt setup_sample h₂
  exact ⟨s, hs, hrun.1, hrun.2, (hdecrypt [1, 2, 3] [s.group.info.key] 0 rfl _ _).1⟩

end Ceremony

end GroupKey
