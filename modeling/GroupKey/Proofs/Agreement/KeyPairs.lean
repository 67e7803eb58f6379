import GroupKey.Proofs.Agreement.Completeness

/-!
# Key pairs that follow joins

A member patches the two halves of its key pair apart from each other: the encryption key by the
public keys of the joiner and of the pseudo member that it replaces, the decryption key by what
these two contribute to the member's share. The halves go on belonging together, because the entry
of a proof and the entry of a matrix satisfy the same equation. This holds of every single join, so
it does not matter which joins a member hears of, how often and in which order; nor of which tier
and for which group they are.

* `Membership.IsPaired` — the halves of a key pair belong together.
* `JoinProof.IsCarried` — the published entries of a proof carry the keys of its maker.
* `carries_commitment` — so does every published entry of a matrix.
* `isPaired_absorbed` — one join.
* `decrypts_after_joins` — any joins, and the messages that the member decrypts after them.
-/

namespace GroupKey

variable {S : Suite} {ρ σ : Type} [Generator ρ] [Generator σ]

/-- The decryption key of a slot opens the encryption key that it is kept with. -/
structure Membership.IsPaired (p : Parameters S) (m : Membership S) : Prop where
  slot : m.slot.toNat < p.h.length
  opens : p.Opens m.decryptionKey m.slot.toNat m.key

/-- The entries of a proof carry its ephemeral key and the public key that it names, if there is
such a key. Entries of slots without a generator do not matter. -/
def JoinProof.IsCarried (p : Parameters S) (directory : Directory S) (proof : JoinProof S) : Prop :=
  ∀ key, directory.get? proof.keyId = some key → ∀ j < p.h.length, ∀ z, proof.entry? j = some z →
    p.Carries z j (key.combined (proof.challenge key)) proof.u

instance (p : Parameters S) (directory : Directory S) (proof : JoinProof S) :
    Decidable (proof.IsCarried p directory) :=
  inferInstanceAs (Decidable (∀ key ∈ directory.get? proof.keyId, ∀ j < p.h.length,
    ∀ z ∈ proof.entry? j, p.Carries z j (key.combined (proof.challenge key)) proof.u))

theorem Contribution.IsMade.isCarried {p : Parameters S} {t : SizeTier S} {proof : JoinProof S}
    {key : PublicKey S} {reserved : S.G1} (h : IsMade p t ⟨proof, key⟩ reserved)
    {directory : Directory S} (hkey : directory.get? proof.keyId = some key) :
    proof.IsCarried p directory := by
  intro key' hkey' j _ z hz
  obtain rfl : key = key' := Option.some.inj (hkey.symm.trans hkey')
  have hlt : j < t.scale := h.fits.lt_of_entry? hz
  have hne : j ≠ proof.slot.toNat := by
    rintro rfl
    exact Option.some_ne_none z (hz.symm.trans h.fits.entry?_self)
  have hcarries := h.carries j hlt hne
  rwa [Contribution.entry, hz] at hcarries

/-- **Every published entry of a matrix carries the keys of its row.** -/
theorem Parameters.IsSetup.carries_commitment [S.BilinearPairing] {p : Parameters S}
    {secrets : SlotSecrets S} (hp : p.IsSetup secrets) {number : UInt16} {t : SizeTier S}
    (ht : p.tier number = .ok t) {row column : UInt32} {c : S.G1}
    (h : t.commitment row column = .ok c) :
    ∃ m, t.member row = .ok m ∧ p.Carries c column.toNat m.combined m.u := by
  rw [tier_eq_ok] at ht
  obtain ⟨-, hscale⟩ := hp.scale _ t ht
  unfold SizeTier.commitment at h
  cases hm : t.member row with
  | error err => simp [hm] at h
  | ok m =>
    refine ⟨m, rfl, ?_⟩
    obtain ⟨hrow, hget⟩ : row.toNat < t.scale ∧ t.members[row.toNat]? = some m := by
      unfold SizeTier.member at hm
      split at hm
      · next hget =>
        obtain rfl := Except.ok.inj hm
        exact ⟨(List.getElem?_eq_some_iff.1 hget).1, hget⟩
      · simp at hm
    obtain ⟨secret, w, hdrawn, -⟩ := hp.row _ t row.toNat ht hrow
    obtain rfl := Option.some.inj (hget.symm.trans hdrawn)
    simp only [hm, pseudoMember, getElem?_withoutSlot] at h
    split at h
    · next z hz =>
      obtain rfl := Except.ok.inj h
      split at hz
      · simp at hz
      · -- The row has no entries beyond the slots of its tier.
        have hcolumn := (List.getElem?_eq_some_iff.1 hz).1
        rw [length_entries _ _ _ hscale] at hcolumn
        obtain ⟨z', hz', hcarries⟩ := hp.carries_entries hcolumn hscale secret
          (S.challenge [] secret.publicKey (w • S.base2)) w
        obtain rfl : z = z' := Option.some.inj (hz.symm.trans hz')
        exact hcarries
    · simp at h

namespace Engine

variable {p : Parameters S} {directory : Directory S} {proof : JoinProof S}

theorem isPaired_absorbed [S.BilinearPairing] {secrets : SlotSecrets S} (hp : p.IsSetup secrets)
    {m m' : Membership S} (hm : m.IsPaired p) (hproof : proof.IsCarried p directory)
    (h : absorbed p directory proof m = .ok m') :
    m'.group = m.group ∧ m'.slot = m.slot ∧ m'.IsPaired p := by
  obtain ⟨t, mine, displaced, change, ht, hentry, hcommitment, hchange, rfl⟩ := absorbed_cases h
  obtain ⟨key, t', row, hkey, ht', hrow, rfl⟩ := JoinProof.keyChange_cases hchange
  obtain rfl : t = t' := Except.ok.inj (ht.symm.trans ht')
  obtain ⟨row', hrow', hout⟩ := hp.carries_commitment ht hcommitment
  obtain rfl : row = row' := Except.ok.inj (hrow.symm.trans hrow')
  have hin := hproof key hkey m.slot.toNat hm.slot mine hentry
  refine ⟨rfl, rfl, hm.slot, ?_⟩
  have hopens := hm.opens.replace hin hout
  rwa [← add_sub_assoc] at hopens

theorem isPaired_absorb [S.BilinearPairing] {secrets : SlotSecrets S} (hp : p.IsSetup secrets)
    {e e' : Engine S} {m : Membership S} (hmember : e.membership = some m) (hm : m.IsPaired p)
    (hproof : proof.IsCarried p directory) (h : e.absorb p directory proof = (.ok (), e')) :
    ∃ m', e' = { e with membership := some m' } ∧ m'.group = m.group ∧ m'.slot = m.slot ∧
      m'.IsPaired p := by
  simp only [absorb, hmember] at h
  split at h
  · next m' hm' =>
    obtain rfl := (Prod.mk.inj h).2
    exact ⟨m', rfl, isPaired_absorbed hp hm hproof hm'⟩
  · simp at h

/-- The engine after joins that it heard of, each with the directory at that time. One that cannot
be folded in changes nothing. -/
def absorbAll (p : Parameters S) (e : Engine S) (heard : List (Directory S × JoinProof S)) :
    Engine S :=
  heard.foldl (fun e x => (e.absorb p x.1 x.2).2) e

theorem isPaired_absorbAll [S.BilinearPairing] {secrets : SlotSecrets S} (hp : p.IsSetup secrets)
    {heard : List (Directory S × JoinProof S)} (hheard : ∀ x ∈ heard, x.2.IsCarried p x.1)
    {e : Engine S} {m : Membership S} (hmember : e.membership = some m) (hm : m.IsPaired p) :
    ∃ m', e.absorbAll p heard = { e with membership := some m' } ∧ m'.group = m.group ∧
      m'.slot = m.slot ∧ m'.IsPaired p := by
  induction heard generalizing e m with
  | nil => exact ⟨m, by rw [← hmember]; rfl, rfl, rfl, hm⟩
  | cons x heard ih =>
    have hrest := fun x hx => hheard x (List.mem_cons_of_mem _ hx)
    have hstep : ∃ m₁, (e.absorb p x.1 x.2).2 = { e with membership := some m₁ } ∧
        m₁.group = m.group ∧ m₁.slot = m.slot ∧ m₁.IsPaired p := by
      rcases habsorb : e.absorb p x.1 x.2 with ⟨err | u, e'⟩
      · refine ⟨m, ?_, rfl, rfl, hm⟩
        rw [absorb_error habsorb, ← hmember]
      · exact isPaired_absorb hp hmember hm (hheard x List.mem_cons_self) habsorb
    obtain ⟨m₁, he, hgroup, hslot, hm₁⟩ := hstep
    obtain ⟨m', he', hgroup', hslot', hm'⟩ :=
      ih hrest (e := { e with membership := some m₁ }) rfl hm₁
    refine ⟨m', ?_, hgroup'.trans hgroup, hslot'.trans hslot, hm'⟩
    rw [absorbAll, List.foldl_cons, he]
    exact he'

variable (ρ) in
/-- **A key pair goes on decrypting, whatever joins it follows.** Let the parameters come from a
successful setup, and let an engine have a key pair whose halves belong together. If it folds in a
proof whose entries carry the keys of the maker, the pair is one for the same slot of the same
group, and the halves belong together again. So after any sequence of such proofs, with joins
missed, repeated or out of order, the engine decrypts every message to the encryption key that it
has then, among any others. -/
theorem decrypts_after_joins [S.BilinearPairing] {level : UInt32} {maxGroupSize sizeStep : Nat}
    {s s' : σ} {secrets : SlotSecrets S}
    (hsetup : Parameters.setup level maxGroupSize sizeStep s = (.ok (p, secrets), s'))
    {e : Engine S} {m : Membership S} (hmember : e.membership = some m) (hm : m.IsPaired p) :
    (∀ directory proof e', JoinProof.IsCarried p directory proof →
      e.absorb p directory proof = (.ok (), e') →
      ∃ m', e' = { e with membership := some m' } ∧ m'.group = m.group ∧ m'.slot = m.slot ∧
        m'.IsPaired p) ∧
    ∀ heard : List (Directory S × JoinProof S), (∀ x ∈ heard, x.2.IsCarried p x.1) →
      ∃ m', e.absorbAll p heard = { e with membership := some m' } ∧ m'.group = m.group ∧
        m'.slot = m.slot ∧ m'.IsPaired p ∧
        ∀ (message : Bytes) (keys : List (EncryptionKey S)) (i : Nat) (r : ρ),
          keys[i]? = some m'.key →
          (e.absorbAll p heard).decrypt p (Ciphertext.encrypt p message keys r).1 i =
            .ok message := by
  have hp := Parameters.isSetup_of_setup hsetup
  refine ⟨fun directory proof e' hproof h => isPaired_absorb hp hmember hm hproof h, ?_⟩
  intro heard hheard
  obtain ⟨m', he, hgroup, hslot, hm'⟩ := isPaired_absorbAll hp hheard hmember hm
  refine ⟨m', he, hgroup, hslot, hm', fun message keys i r hi => ?_⟩
  rw [he]
  exact hp.decryptWith_encrypt hm'.slot hm'.opens message hi r

/-! ### A join that is heard twice -/

/-- A key pair of the first slot, with a decryption key that opens its encryption key. -/
def sampleMembership : Membership .sample where
  group := .new 0 0 ⟨80⟩
  slot := 0
  key := ⟨Suite.sample.base2, Suite.sample.base1⟩
  decryptionKey := (show Suite.sample.GT from
    Suite.sample.pair Suite.sample.base1 sampleSetup.1.g0G2 +
      Suite.sample.pair (sampleSetup.1.slotBase 0) Suite.sample.base2)

/-- The engine that holds it hears of the join of another for the second slot, twice. -/
def sampleHeard? : Option (Engine .sample) :=
  sampleProving.result.toOption.map fun proof =>
    absorbAll sampleSetup.1 ⟨none, none, some sampleMembership⟩
      (List.replicate 2 (sampleProving.resources.directory, proof))

/-- It decrypts a message for the key that it has then. -/
theorem decrypts_after_joins_twice : ∃ e m', sampleHeard? = some e ∧ e.membership = some m' ∧
    m'.key ≠ sampleMembership.key ∧ e.decrypt sampleSetup.1
      (Ciphertext.encrypt sampleSetup.1 [1, 2, 3] [sampleMembership.key, m'.key]
        (Counter.mk 60)).1 1 = .ok [1, 2, 3] := by
  have hp := Parameters.isSetup_of_setup setup_sample
  have hchanged : sampleHeard?.any (fun e => decide (e.membership.map (·.key) ≠
      some sampleMembership.key)) = true := by
    decide +kernel
  obtain ⟨e, he, hchanged⟩ := (Option.any_eq_true _ _).1 hchanged
  obtain ⟨proof, hproof, rfl⟩ := Option.map_eq_some_iff.1 he
  have hok : sampleProving.result = .ok proof := by
    cases hr : sampleProving.result with
    | error err => simp [hr, Except.toOption] at hproof
    | ok proof' =>
      rw [hr] at hproof
      exact congrArg _ (Option.some.inj hproof)
  obtain ⟨t, key, reserved, -, hmade, -, -, hkey, -⟩ :=
    prove_ok hp (Reachable.empty (p := sampleSetup.1) .empty).honest hok
  have hpaired : sampleMembership.IsPaired sampleSetup.1 :=
    ⟨by decide +kernel, show _ = _ by decide +kernel⟩
  obtain ⟨-, hrun⟩ := decrypts_after_joins Counter setup_sample
    (e := ⟨none, none, some sampleMembership⟩) rfl hpaired
  obtain ⟨m', hm', -, -, -, hdecrypt⟩ :=
    hrun (List.replicate 2 (sampleProving.resources.directory, proof)) fun x hx =>
      List.eq_of_mem_replicate hx ▸ hmade.isCarried hkey
  refine ⟨_, m', he, congrArg membership hm', ?_, hdecrypt [1, 2, 3] _ 1 _ rfl⟩
  intro heq
  rw [hm'] at hchanged
  simp [heq] at hchanged

end Engine

end GroupKey
