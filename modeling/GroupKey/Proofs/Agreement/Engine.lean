import GroupKey.Agreement.Engine
import GroupKey.Proofs.Agreement.Acceptance
import GroupKey.Proofs.Agreement.Decryption
import GroupKey.Proofs.Maps

/-!
# What an engine holds

An engine publishes every key before it backs a proof with it, and the directory never gives a
number away twice. So whoever checks the proof later finds the key it was made with.

* `Directory.Extends` — a directory after further uploads.
* `NodeKey.Drawn`, `Engine.Proves` — what drawing a key and what making a proof come to.
* `Reachable` — an engine after any operations, beside a directory that anyone may upload to.
* `Reachable.honest` — the key of a reachable engine is published.
* `IsMade` — a proof as an honest node makes it, with the entry it kept back.
* `prove_ok`, `absorbed_eq_ok` — what a proof leaves behind, and what overhearing one does.
* `prove_names`, `absorb_changes` — as much of this as holds of any engine.
-/

namespace GroupKey

variable {S : Suite} {ρ : Type}

/-! ## Directories that grow -/

namespace Directory

/-- The directory has all entries of an earlier one. -/
def Extends (later earlier : Directory S) : Prop :=
  ∀ id key, earlier.get? id = some key → later.get? id = some key

theorem Extends.refl (d : Directory S) : d.Extends d := fun _ _ h => h

theorem Extends.trans {d₁ d₂ d₃ : Directory S} (h : d₃.Extends d₂) (h' : d₂.Extends d₁) :
    d₃.Extends d₁ :=
  fun id key hk => h id key (h' id key hk)

theorem Extends.get?_eq_none {later earlier : Directory S} (h : later.Extends earlier) {id : UInt32}
    (hfree : later.get? id = none) : earlier.get? id = none := by
  cases hkey : earlier.get? id with
  | none => rfl
  | some key =>
    rw [h id key hkey] at hfree
    simp at hfree

theorem extends_upload (d : Directory S) (id : UInt32) (key : PublicKey S) :
    (d.upload id key).2.Extends d := by
  intro id' key' h
  unfold upload
  split
  · exact h
  · split
    · exact h
    · next hid =>
      have hne : id ≠ id' := by
        rintro rfl
        rw [get?, Std.ExtTreeMap.getElem?_eq_none hid] at h
        simp at h
      show (d.entries.insert id key)[id']? = some key'
      rw [getElem?_insert_of_ne hne]
      exact h

theorem of_upload {d d' : Directory S} {id : UInt32} {key : PublicKey S}
    (h : d.upload id key = (true, d')) : d.get? id = none ∧ d'.get? id = some key := by
  unfold upload at h
  split at h
  · simp at h
  · split at h
    · simp at h
    · next hid =>
      obtain rfl := (Prod.mk.inj h).2
      exact ⟨Std.ExtTreeMap.getElem?_eq_none hid, Std.ExtTreeMap.getElem?_insert_self⟩

end Directory

theorem JoinProof.keyChange_mono {p : Parameters S} {d d' : Directory S} (hd : d'.Extends d)
    {proof : JoinProof S} {change : KeyChange S} (h : proof.keyChange p d = .ok change) :
    proof.keyChange p d' = .ok change := by
  unfold keyChange at h ⊢
  cases hk : d.get? proof.keyId with
  | none => simp [hk] at h
  | some key =>
    rw [hk] at h
    rw [hd _ _ hk]
    exact h

/-! ## Published keys -/

namespace NodeKey

/-- The key is found in the directory under its number. -/
structure Published (directory : Directory S) (key : NodeKey S) : Prop where
  get : directory.get? key.id = some key.publicKey
  publicKey : key.publicKey = key.secret.publicKey

theorem Published.mono {d d' : Directory S} {key : NodeKey S} (h : key.Published d)
    (hd : d'.Extends d) : key.Published d' :=
  ⟨hd _ _ h.get, h.publicKey⟩

/-- What drawing a key comes to: it is published under a number that was free, or no number is found
for it. -/
inductive Drawn (res : Resources S ρ) : Except AgreementError (NodeKey S) × Resources S ρ → Prop
  | published {key : NodeKey S} {res' : Resources S ρ}
      (grows : res'.directory.Extends res.directory) (unused : key.used = false)
      (free : res.directory.get? key.id = none) (published : key.Published res'.directory) :
    Drawn res (.ok key, res')
  | refused {res' : Resources S ρ} (grows : res'.directory.Extends res.directory) :
    Drawn res (.error .keyIdExhausted, res')

theorem Drawn.extends {res : Resources S ρ} {r : Except AgreementError (NodeKey S) × Resources S ρ}
    (h : Drawn res r) : r.2.directory.Extends res.directory := by
  cases h with
  | published grows | refused grows => exact grows

variable [Generator ρ]

theorem publish_spec (key : PublicKey S) (attempts : Nat) (res : Resources S ρ) :
    (publish key attempts res).2.directory.Extends res.directory ∧
      ∀ id, (publish key attempts res).1 = some id → res.directory.get? id = none ∧
        (publish key attempts res).2.directory.get? id = some key := by
  induction attempts generalizing res with
  | zero => exact ⟨Directory.Extends.refl _, fun id h => by simp [publish] at h⟩
  | succ attempts ih =>
    simp only [publish]
    rcases hup : res.directory.upload (Generator.word32 res.generator).1 key with ⟨accepted, d⟩
    have hext : d.Extends res.directory := by
      have := res.directory.extends_upload (Generator.word32 res.generator).1 key
      rwa [hup] at this
    cases accepted with
    | true =>
      refine ⟨hext, fun id hid => ?_⟩
      obtain rfl := Option.some.inj hid
      exact Directory.of_upload hup
    | false =>
      obtain ⟨hgrows, hpublished⟩ := ih ⟨d, (Generator.word32 res.generator).2⟩
      -- A refused upload may only add entries, so what is free after it was free before.
      exact ⟨hgrows.trans hext, fun id hid =>
        ⟨hext.get?_eq_none (hpublished id hid).1, (hpublished id hid).2⟩⟩

theorem drawn_fresh (res : Resources S ρ) : Drawn res (fresh res) := by
  unfold fresh
  rcases hs : SecretKey.random (S := S) res.generator with ⟨secret, generator⟩
  simp only
  obtain ⟨hgrows, hpublished⟩ := publish_spec secret.publicKey maxAttempts { res with generator }
  rcases hp : publish secret.publicKey maxAttempts { res with generator } with ⟨_ | id, res'⟩
  · rw [hp] at hgrows
    exact .refused hgrows
  · rw [hp] at hgrows hpublished
    obtain ⟨hfree, hget⟩ := hpublished id rfl
    exact .published hgrows rfl hfree ⟨hget, rfl⟩

end NodeKey

/-! ## Reachable engines -/

namespace Engine

/-- The key of the engine, if it has one, is published. -/
def Honest (directory : Directory S) (e : Engine S) : Prop :=
  ∀ key, e.key = some key → key.Published directory

theorem Honest.mono {d d' : Directory S} {e : Engine S} (h : e.Honest d) (hd : d'.Extends d) :
    e.Honest d' :=
  fun key hk => (h key hk).mono hd

theorem key_derive (e : Engine S) (group : GroupId) (slot : UInt32) (share : S.G1)
    (expected : EncryptionKey S) : (e.derive group slot share expected).2.key = e.key := by
  unfold derive
  split
  · rfl
  · split
    · rfl
    · split <;> rfl

theorem key_absorb (p : Parameters S) (d : Directory S) (proof : JoinProof S) (e : Engine S) :
    (e.absorb p d proof).2.key = e.key := by
  unfold absorb
  split
  · rfl
  · split <;> rfl

/-- A directory, and an engine that did any operations on it. Between two operations anyone may
upload any key. -/
inductive Reachable (p : Parameters S) : Directory S → Engine S → Prop
  | empty (d : Directory S) : Reachable p d .empty
  | upload {d : Directory S} {e : Engine S} (id : UInt32) (key : PublicKey S) :
    Reachable p d e → Reachable p (d.upload id key).2 e
  | keyGen {d : Directory S} {e : Engine S} {ρ : Type} [Generator ρ] (r : ρ) :
    Reachable p d e →
      Reachable p (e.keyGen ⟨d, r⟩).resources.directory (e.keyGen ⟨d, r⟩).engine
  | prove {d : Directory S} {e : Engine S} {ρ : Type} [Generator ρ] (r : ρ) (group : GroupId)
    (current : EncryptionKey S) (tier : UInt16) (slot : UInt32) :
    Reachable p d e →
      Reachable p (e.prove p group current tier slot ⟨d, r⟩).resources.directory
        (e.prove p group current tier slot ⟨d, r⟩).engine
  | derive {d : Directory S} {e : Engine S} (group : GroupId) (slot : UInt32) (share : S.G1)
    (expected : EncryptionKey S) :
    Reachable p d e → Reachable p d (e.derive group slot share expected).2
  | absorb {d : Directory S} {e : Engine S} (proof : JoinProof S) :
    Reachable p d e → Reachable p d (e.absorb p d proof).2
  | abandon {d : Directory S} {e : Engine S} : Reachable p d e → Reachable p d e.abandon

variable [Generator ρ]

theorem unusedKey_cases (e : Engine S) (res : Resources S ρ) :
    (∃ key, e.key = some key ∧ key.used = false ∧ e.unusedKey res = (.ok key, res)) ∨
      (∀ key, e.key = some key → key.used = true) ∧ e.unusedKey res = NodeKey.fresh res := by
  unfold unusedKey
  cases e.key with
  | none => exact .inr ⟨nofun, rfl⟩
  | some key =>
    cases hused : key.used with
    | true => exact .inr ⟨fun key' heq => Option.some.inj heq ▸ hused, by simp [hused]⟩
    | false => exact .inl ⟨key, rfl, hused, by simp [hused]⟩

theorem extends_unusedKey (e : Engine S) (res : Resources S ρ) :
    (e.unusedKey res).2.directory.Extends res.directory := by
  rcases e.unusedKey_cases res with ⟨key, -, -, heq⟩ | ⟨-, heq⟩ <;> rw [heq]
  · exact Directory.Extends.refl _
  · exact (NodeKey.drawn_fresh res).extends

theorem published_unusedKey {e : Engine S} {res res' : Resources S ρ} {key : NodeKey S}
    (h : e.Honest res.directory) (hkey : e.unusedKey res = (.ok key, res')) :
    key.Published res'.directory := by
  rcases e.unusedKey_cases res with ⟨own, hown, -, heq⟩ | ⟨-, heq⟩ <;> rw [heq] at hkey
  · obtain ⟨hresult, rfl⟩ := Prod.mk.inj hkey
    obtain rfl := Except.ok.inj hresult
    exact h own hown
  · have hdrawn := NodeKey.drawn_fresh (S := S) res
    rw [hkey] at hdrawn
    cases hdrawn with
    | published _ _ _ published => exact published

theorem honest_keyGen {e : Engine S} {res : Resources S ρ} (h : e.Honest res.directory) :
    (e.keyGen res).engine.Honest (e.keyGen res).resources.directory := by
  have hdrawn := NodeKey.drawn_fresh (S := S) res
  unfold keyGen
  generalize NodeKey.fresh res = r at hdrawn ⊢
  cases hdrawn with
  | refused grows => exact h.mono grows
  | published _ _ _ published =>
    intro key' hkey
    obtain rfl := Option.some.inj hkey
    exact published

/-- What making a proof comes to. The engine finds the tier and the slot before it takes its key
out, and fails after that only for want of a key. -/
inductive Proves (p : Parameters S) (group : GroupId) (current : EncryptionKey S) (tier : UInt16)
    (slot : UInt32) (e : Engine S) (res : Resources S ρ) : Outcome S ρ (JoinProof S) → Prop
  | unscaled {err : AgreementError} (unknown : p.scale tier = .error err) :
    Proves p group current tier slot e res ⟨.error err, e, res⟩
  | outside {scale : Nat} (known : p.scale tier = .ok scale) (large : scale ≤ slot.toNat) :
    Proves p group current tier slot e res ⟨.error (.slotOutOfRange slot.toNat scale), e, res⟩
  | keyless {scale : Nat} {err : AgreementError} {res' : Resources S ρ}
      (known : p.scale tier = .ok scale) (fits : slot.toNat < scale)
      (keyless : e.unusedKey res = (.error err, res')) :
    Proves p group current tier slot e res ⟨.error err, { e with key := none }, res'⟩
  | made {t : SizeTier S} {key : NodeKey S} {res' : Resources S ρ} {w : S.Scalar} {generator : ρ}
      {entries : List S.G1} {proof : JoinProof S} (known : p.tier tier = .ok t)
      (fits : slot.toNat < t.scale) (taken : e.unusedKey res = (.ok key, res'))
      (computed : entries = p.entries t.scale (key.secret.exponent
        (S.challenge group.toBytes key.publicKey (w • S.base2))) w)
      (made : proof = ⟨key.id, tier, slot, group, w • S.base2,
        Parameters.withoutSlot slot.toNat entries⟩) :
    Proves p group current tier slot e res ⟨.ok proof,
      { e with
        key := some { key with used := true }
        pending := some ⟨group, slot, (entries[slot.toNat]?).getD 0,
          current.apply (Contribution.change t ⟨proof, key.publicKey⟩)⟩ },
      { res' with generator }⟩

theorem proves_prove (p : Parameters S) (group : GroupId) (current : EncryptionKey S)
    (tier : UInt16) (slot : UInt32) (e : Engine S) (res : Resources S ρ) :
    Proves p group current tier slot e res (e.prove p group current tier slot res) := by
  unfold prove
  cases hscale : p.scale tier with
  | error err => exact .unscaled hscale
  | ok scale =>
    obtain ⟨t, ht, rfl⟩ := Parameters.scale_eq_ok.1 hscale
    simp only
    by_cases hslot : t.scale ≤ slot.toNat
    · rw [if_pos hslot]
      exact .outside hscale hslot
    · rw [if_neg hslot]
      have hfits := Nat.not_le.1 hslot
      rcases hkey : e.unusedKey res with ⟨err | key, res'⟩
      · exact .keyless hscale hfits hkey
      · -- The tier has a row for the slot, so the change of the group key can be computed.
        obtain ⟨m, hm, hu, hcombined⟩ := SizeTier.member_eq_ok hfits
        simp only [Parameters.keyChange, ht, hm, hu, hcombined]
        exact .made ht hfits hkey rfl rfl

theorem extends_prove (p : Parameters S) (group : GroupId) (current : EncryptionKey S)
    (tier : UInt16) (slot : UInt32) (e : Engine S) (res : Resources S ρ) :
    (e.prove p group current tier slot res).resources.directory.Extends res.directory := by
  have hproves := proves_prove p group current tier slot e res
  generalize e.prove p group current tier slot res = out at hproves ⊢
  have hext := e.extends_unusedKey res
  cases hproves with
  | unscaled | outside => exact Directory.Extends.refl _
  | keyless _ _ keyless => rwa [keyless] at hext
  | made _ _ taken => rwa [taken] at hext

theorem honest_prove {e : Engine S} {d : Directory S} (h : e.Honest d) (p : Parameters S)
    (group : GroupId) (current : EncryptionKey S) (tier : UInt16) (slot : UInt32) (r : ρ) :
    (e.prove p group current tier slot ⟨d, r⟩).engine.Honest
      (e.prove p group current tier slot ⟨d, r⟩).resources.directory := by
  have hproves := proves_prove p group current tier slot e ⟨d, r⟩
  generalize e.prove p group current tier slot ⟨d, r⟩ = out at hproves ⊢
  cases hproves with
  | unscaled | outside => exact h
  | keyless => exact fun key hkey => by simp at hkey
  | made _ _ taken =>
    have hpublished := published_unusedKey h taken
    intro key' hkey
    obtain rfl := Option.some.inj hkey
    exact ⟨hpublished.get, hpublished.publicKey⟩

/-- **The key of a reachable engine is published.** -/
theorem Reachable.honest {p : Parameters S} {d : Directory S} {e : Engine S}
    (h : Reachable p d e) : e.Honest d := by
  induction h with
  | empty d => exact fun key hk => by simp [Engine.empty] at hk
  | upload id key _ ih => exact ih.mono (Directory.extends_upload _ id key)
  | keyGen r _ ih => exact honest_keyGen ih
  | prove r group current tier slot _ ih => exact honest_prove ih p group current tier slot r
  | derive group slot share expected _ ih =>
    exact fun key hk => ih key (by rwa [key_derive] at hk)
  | absorb proof _ ih => exact fun key hk => ih key (by rwa [key_absorb] at hk)
  | abandon _ ih => exact ih

end Engine

/-! ## Making a proof -/

/-- A proof made by an honest node: it fits its tier, its entries carry the maker's keys, and so
does the entry that was kept back. -/
structure Contribution.IsMade (p : Parameters S) (t : SizeTier S) (c : Contribution S)
    (reserved : S.G1) : Prop where
  fits : c.proof.Fits t.scale
  carries : ∀ j < t.scale, j ≠ c.slot → p.Carries (c.entry j) j c.combined c.proof.u
  reserved : p.Carries reserved c.slot c.combined c.proof.u

variable {p : Parameters S} {secrets : SlotSecrets S}

/-- What is computed from two exponents is an honest proof. -/
theorem Parameters.IsSetup.isMade [S.BilinearPairing] (hp : p.IsSetup secrets) {tier : UInt16}
    {t : SizeTier S} (ht : p.tier tier = .ok t) {slot : UInt32} (hslot : slot.toNat < t.scale)
    (keyId : UInt32) (group : GroupId) (secret : SecretKey S) (w : S.Scalar) {entries : List S.G1}
    (hentries : entries = p.entries t.scale (secret.exponent
      (S.challenge group.toBytes secret.publicKey (w • S.base2))) w) :
    Contribution.IsMade p t ⟨⟨keyId, tier, slot, group, w • S.base2,
      Parameters.withoutSlot slot.toNat entries⟩, secret.publicKey⟩
      ((entries[slot.toNat]?).getD 0) := by
  have hscale := (hp.scale _ t (Parameters.tier_eq_ok.1 ht)).2
  have hlen : entries.length = t.scale := by
    rw [hentries, Parameters.length_entries _ _ _ hscale]
  have hcarries : ∀ j < t.scale, ∃ z, entries[j]? = some z ∧ p.Carries z j
      (secret.publicKey.combined (S.challenge group.toBytes secret.publicKey (w • S.base2)))
      (w • S.base2) := fun j hj => by
    rw [hentries]
    exact hp.carries_entries hj hscale secret _ w
  refine ⟨⟨?_, hslot, ?_, ?_⟩, ?_, ?_⟩
  · rw [Parameters.length_withoutSlot, hlen]
  · rw [JoinProof.entry?, Parameters.getElem?_withoutSlot, if_pos rfl]
  · intro j hj hne
    rw [JoinProof.entry?, Parameters.getElem?_withoutSlot, if_neg hne,
      List.getElem?_eq_getElem (by rw [hlen]; exact hj)]
    rfl
  · intro j hj hne
    obtain ⟨z, hz, h⟩ := hcarries j hj
    rw [Contribution.entry, JoinProof.entry?, Parameters.getElem?_withoutSlot,
      if_neg (show ¬j = slot.toNat from hne), hz]
    exact h
  · obtain ⟨z, hz, h⟩ := hcarries slot.toNat hslot
    rw [hz]
    exact h

variable [Generator ρ]

/-- **What a proof leaves behind.** The proof is an honest one for the slot it was asked for, made
with a key that the directory knows; and the engine waits for the encryption key that the group has
after the join. -/
theorem Engine.prove_ok [S.BilinearPairing] (hp : p.IsSetup secrets) {e : Engine S}
    {d : Directory S} (h : e.Honest d) {group : GroupId} {current : EncryptionKey S} {tier : UInt16}
    {slot : UInt32} {r : ρ} {proof : JoinProof S}
    (hok : (e.prove p group current tier slot ⟨d, r⟩).result = .ok proof) :
    ∃ t key reserved, p.tier tier = .ok t ∧ Contribution.IsMade p t ⟨proof, key⟩ reserved ∧
      proof.tier = tier ∧ proof.slot = slot ∧
      (e.prove p group current tier slot ⟨d, r⟩).resources.directory.get? proof.keyId = some key ∧
      (e.prove p group current tier slot ⟨d, r⟩).engine.pending =
        some ⟨group, slot, reserved, current.apply (Contribution.change t ⟨proof, key⟩)⟩ := by
  have hproves := proves_prove p group current tier slot e ⟨d, r⟩
  generalize e.prove p group current tier slot ⟨d, r⟩ = out at hproves hok ⊢
  cases hproves with
  | unscaled | outside | keyless => simp at hok
  | @made t key _ w _ _ _ known fits taken computed made =>
    obtain rfl := Except.ok.inj hok
    have hpublished := published_unusedKey h taken
    subst made
    refine ⟨t, key.publicKey, _, known, ?_, rfl, rfl, hpublished.get, rfl⟩
    rw [hpublished.publicKey] at computed ⊢
    exact hp.isMade known fits key.id group key.secret w computed

/-- A proof is for what it was asked for, and the engine waits for just that. -/
theorem Engine.prove_names {p : Parameters S} {group : GroupId} {current : EncryptionKey S}
    {tier : UInt16} {slot : UInt32} {e : Engine S} {res : Resources S ρ} {proof : JoinProof S}
    (h : (e.prove p group current tier slot res).result = .ok proof) :
    proof.group = group ∧ proof.tier = tier ∧
      ∃ pending, (e.prove p group current tier slot res).engine.pending = some pending ∧
        pending.group = group ∧ pending.slot = slot := by
  have hproves := proves_prove p group current tier slot e res
  generalize e.prove p group current tier slot res = out at hproves h ⊢
  cases hproves with
  | unscaled | outside | keyless => simp at h
  | made known fits taken computed made =>
    obtain rfl := Except.ok.inj h
    subst made
    exact ⟨rfl, rfl, _, rfl, rfl, rfl⟩

theorem Engine.directory_prove {p : Parameters S} {group : GroupId} {current : EncryptionKey S}
    {tier : UInt16} {slot : UInt32} {e : Engine S} {res : Resources S ρ} {proof : JoinProof S}
    (h : (e.prove p group current tier slot res).result = .ok proof) :
    (e.prove p group current tier slot res).resources.directory =
      (e.unusedKey res).2.directory := by
  have hproves := proves_prove p group current tier slot e res
  generalize e.prove p group current tier slot res = out at hproves h ⊢
  cases hproves with
  | unscaled | outside | keyless => simp at h
  | made _ _ taken => rw [taken]

/-- An engine with an unused key, or one that can publish a fresh key, proves its join for every
slot of every group. -/
theorem Engine.exists_prove {p : Parameters S} {tier : UInt16} {scale : Nat}
    (hscale : p.scale tier = .ok scale) {slot : UInt32} (hslot : slot.toNat < scale) {e : Engine S}
    {res : Resources S ρ} {key : NodeKey S} (hkey : (e.unusedKey res).1 = .ok key)
    (group : GroupId) (current : EncryptionKey S) :
    ∃ proof, (e.prove p group current tier slot res).result = .ok proof := by
  have hproves := proves_prove p group current tier slot e res
  generalize e.prove p group current tier slot res = out at hproves ⊢
  cases hproves with
  | unscaled unknown => simp [hscale] at unknown
  | outside known large =>
    obtain rfl := Except.ok.inj (hscale.symm.trans known)
    exact absurd hslot (Nat.not_lt.2 large)
  | keyless _ _ keyless => simp [keyless] at hkey
  | made => exact ⟨_, rfl⟩

theorem Engine.membership_prove (p : Parameters S) (group : GroupId) (current : EncryptionKey S)
    (tier : UInt16) (slot : UInt32) (e : Engine S) (res : Resources S ρ) :
    (e.prove p group current tier slot res).engine.membership = e.membership := by
  have hproves := proves_prove p group current tier slot e res
  generalize e.prove p group current tier slot res = out at hproves ⊢
  cases hproves <;> rfl

theorem Engine.pending_prove_of_error {p : Parameters S} {group : GroupId}
    {current : EncryptionKey S} {tier : UInt16} {slot : UInt32} {e : Engine S} {res : Resources S ρ}
    {err : AgreementError} (h : (e.prove p group current tier slot res).result = .error err) :
    (e.prove p group current tier slot res).engine.pending = e.pending := by
  have hproves := proves_prove p group current tier slot e res
  generalize e.prove p group current tier slot res = out at hproves h ⊢
  cases hproves with
  | unscaled | outside | keyless => rfl
  | made => simp at h

/-! ## Overhearing a proof -/

theorem JoinProof.keyChange_cases {p : Parameters S} {d : Directory S} {proof : JoinProof S}
    {change : KeyChange S} (h : proof.keyChange p d = .ok change) :
    ∃ key t row, d.get? proof.keyId = some key ∧ p.tier proof.tier = .ok t ∧
      t.member proof.slot = .ok row ∧
      change = ⟨proof.u - row.u, key.combined (proof.challenge key) - row.combined⟩ := by
  unfold JoinProof.keyChange at h
  split at h
  · simp at h
  · next key hkey =>
    unfold Parameters.keyChange at h
    split at h
    · simp at h
    · next t ht =>
      split at h
      · simp at h
      · next row hrow => exact ⟨key, t, row, hkey, ht, hrow, (Except.ok.inj h).symm⟩

/-- **What a key pair becomes by a join.** The proof has an entry for the slot of the pair, and so
has the row that it takes the place of. -/
theorem Engine.absorbed_cases {p : Parameters S} {d : Directory S} {proof : JoinProof S}
    {m m' : Membership S} (h : absorbed p d proof m = .ok m') :
    ∃ t mine displaced change, p.tier proof.tier = .ok t ∧
      proof.entry? m.slot.toNat = some mine ∧ t.commitment proof.slot m.slot = .ok displaced ∧
      proof.keyChange p d = .ok change ∧
      m' = { m with
        key := m.key.apply change
        decryptionKey := m.decryptionKey + mine - displaced } := by
  unfold absorbed at h
  split at h
  · simp at h
  · next mine hmine =>
    split at h
    · simp at h
    · next t ht =>
      split at h
      · simp at h
      · next displaced hdisplaced =>
        split at h
        · simp at h
        · next change hchange =>
          exact ⟨t, mine, displaced, change, ht, hmine, hdisplaced, hchange,
            (Except.ok.inj h).symm⟩

theorem Engine.absorb_changes {p : Parameters S} {d : Directory S} {proof : JoinProof S}
    {e e' : Engine S} (h : e.absorb p d proof = (.ok (), e')) :
    ∃ s change share, e.membership = some s ∧ proof.keyChange p d = .ok change ∧
      e' = { e with membership := some { s with
        key := s.key.apply change
        decryptionKey := share } } := by
  unfold absorb at h
  split at h
  · simp at h
  · next s hs =>
    split at h
    · next s' habsorbed =>
      obtain rfl := (Prod.mk.inj h).2
      obtain ⟨-, -, -, change, -, -, -, hchange, rfl⟩ := absorbed_cases habsorbed
      exact ⟨s, change, _, hs, hchange, rfl⟩
    · simp at h

theorem Engine.absorb_error {p : Parameters S} {d : Directory S} {proof : JoinProof S}
    {e e' : Engine S} {err : AgreementError} (h : e.absorb p d proof = (.error err, e')) :
    e' = e := by
  unfold absorb at h
  split at h
  · exact (Prod.mk.inj h).2.symm
  · split at h
    · simp at h
    · exact (Prod.mk.inj h).2.symm

/-- A member follows every join that fits, made with a published key, for another slot. -/
theorem Engine.absorbed_eq_ok {p : Parameters S} {d : Directory S} {t : SizeTier S}
    (hshape : t.IsShaped) {proof : JoinProof S} (htier : p.tier proof.tier = .ok t)
    (hfits : proof.Fits t.scale) {key : PublicKey S} (hkey : d.get? proof.keyId = some key)
    {m : Membership S} (hslot : m.slot.toNat < t.scale) (hne : m.slot ≠ proof.slot) :
    Engine.absorbed p d proof m = .ok { m with
      key := m.key.apply (Contribution.change t ⟨proof, key⟩)
      decryptionKey := m.decryptionKey + Contribution.entry ⟨proof, key⟩ m.slot.toNat -
        t.entry proof.slot.toNat m.slot.toNat } := by
  have hne' : m.slot.toNat ≠ proof.slot.toNat := fun h => hne (UInt32.toNat_inj.1 h)
  obtain ⟨z, hz⟩ := Option.isSome_iff_exists.1 (hfits.entry?_isSome _ hslot hne')
  simp only [absorbed, hz, htier,
    SizeTier.commitment_eq_ok hshape hfits.slot_lt hslot (Ne.symm hne'),
    JoinProof.keyChange_eq_ok htier hfits.slot_lt hkey, Contribution.entry, Option.getD_some]

end GroupKey
