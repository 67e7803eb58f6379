import GroupKey.Proofs.Agreement.Completeness
import GroupKey.Proofs.Agreement.SingleUse

/-!
# Calls that fail

A call on an engine reports its failure, and one that fails should leave the engine as it found it.
All calls but one do: they compute what they may fail to compute before they write anything. To make
a proof, though, an engine takes its key out, and when that has backed a proof before, it has to
publish a fresh one in its place. If no number is free for that, the call fails after the old key is
gone.

* `Engine.Call.Fails` — the call reports a failure.
* `Engine.Call.LosesKey` — the calls that throw the key away: the engine has used its key, the slot
  is there, and no number is found for a fresh key.
* `Engine.engine_of_prove_error` — how a proof fails, and what is left then.
* `Engine.failed_call_keeps` — a failing call changes nothing, with that one exception.
* `Engine.key_lost_by_refusals` — a call that throws a key away.
-/

namespace GroupKey

variable {S : Suite} {ρ : Type} [Generator ρ]

/-! ## Keys that cannot be had -/

theorem NodeKey.eq_keyIdExhausted_of_fresh {res : Resources S ρ} {err : AgreementError}
    (h : (fresh (S := S) res).1 = .error err) : err = .keyIdExhausted := by
  have hdrawn := drawn_fresh (S := S) res
  generalize fresh res = r at hdrawn h
  cases hdrawn with
  | published => simp at h
  | refused => exact (Except.error.inj h).symm

namespace Engine

variable {p : Parameters S} {e : Engine S} {d : Directory S}

theorem unusedKey_error_iff {res : Resources S ρ} {err : AgreementError} :
    (e.unusedKey res).1 = .error err ↔
      (∀ key, e.key = some key → key.used = true) ∧
        (NodeKey.fresh (S := S) res).1 = .error err := by
  rcases e.unusedKey_cases res with ⟨key, hkey, hunused, heq⟩ | ⟨hused, heq⟩ <;> rw [heq]
  · refine ⟨fun h => by simp at h, fun h => ?_⟩
    simp [h.1 key hkey] at hunused
  · exact ⟨fun h => ⟨hused, h⟩, And.right⟩

theorem eq_keyIdExhausted_of_unusedKey {res : Resources S ρ} {err : AgreementError}
    (h : (e.unusedKey res).1 = .error err) : err = .keyIdExhausted :=
  NodeKey.eq_keyIdExhausted_of_fresh (unusedKey_error_iff.1 h).2

theorem prove_error_iff {tier : UInt16} {scale : Nat} (hscale : p.scale tier = .ok scale)
    {slot : UInt32} (hslot : slot.toNat < scale) {res : Resources S ρ} (group : GroupId)
    (current : EncryptionKey S) {err : AgreementError} :
    (e.prove p group current tier slot res).result = .error err ↔
      err = .keyIdExhausted ∧ (e.unusedKey res).1 = .error .keyIdExhausted := by
  have hproves := proves_prove p group current tier slot e res
  generalize e.prove p group current tier slot res = out at hproves ⊢
  cases hproves with
  | unscaled unknown => simp [hscale] at unknown
  | outside known large =>
    obtain rfl := Except.ok.inj (hscale.symm.trans known)
    exact absurd hslot (Nat.not_lt.2 large)
  | keyless _ _ keyless =>
    obtain rfl := eq_keyIdExhausted_of_unusedKey (congrArg Prod.fst keyless)
    simp [keyless, eq_comm]
  | made _ _ taken => simp [taken]

/-! ## Failures -/

/-- The tier has the slot. -/
def HasSlot (p : Parameters S) (tier : UInt16) (slot : UInt32) : Prop :=
  ∃ scale, p.scale tier = .ok scale ∧ slot.toNat < scale

theorem not_hasSlot_of_error {tier : UInt16} {slot : UInt32} {err : AgreementError}
    (h : p.scale tier = .error err) : ¬HasSlot p tier slot := by
  rintro ⟨scale, hok, -⟩
  simp [h] at hok

theorem not_hasSlot_of_le {tier : UInt16} {slot : UInt32} {scale : Nat}
    (h : p.scale tier = .ok scale) (hle : scale ≤ slot.toNat) : ¬HasSlot p tier slot := by
  rintro ⟨scale', hok, hlt⟩
  obtain rfl := Except.ok.inj (h.symm.trans hok)
  exact Nat.not_lt.2 hle hlt

/-- **How a proof fails.** Without the slot nothing has happened yet. With it there was no key for
the proof, and the one that the engine had is gone. -/
theorem engine_of_prove_error {group : GroupId} {current : EncryptionKey S} {tier : UInt16}
    {slot : UInt32} {res : Resources S ρ} {err : AgreementError}
    (h : (e.prove p group current tier slot res).result = .error err) :
    (¬HasSlot p tier slot ∧ (e.prove p group current tier slot res).engine = e) ∨
      HasSlot p tier slot ∧ (e.unusedKey res).1 = .error .keyIdExhausted ∧
        (e.prove p group current tier slot res).engine = { e with key := none } := by
  have hproves := proves_prove p group current tier slot e res
  generalize e.prove p group current tier slot res = out at hproves h ⊢
  cases hproves with
  | unscaled unknown => exact .inl ⟨not_hasSlot_of_error unknown, rfl⟩
  | outside known large => exact .inl ⟨not_hasSlot_of_le known large, rfl⟩
  | keyless known fits keyless =>
    have hkey : (e.unusedKey res).1 = .error _ := congrArg Prod.fst keyless
    obtain rfl := eq_keyIdExhausted_of_unusedKey hkey
    exact .inr ⟨⟨_, known, fits⟩, hkey, rfl⟩
  | made => simp at h

theorem engine_of_derive_false {group : GroupId} {slot : UInt32} {share : S.G1}
    {expected : EncryptionKey S} (h : (e.derive group slot share expected).1 = false) :
    (e.derive group slot share expected).2 = e := by
  unfold derive at h ⊢
  split
  · rfl
  · next pending hpending =>
    simp only [hpending] at h
    split
    · rfl
    · next hnamed =>
      split
      · rfl
      · next hexpected => simp [hnamed, hexpected] at h

theorem engine_of_keyGen_error {res : Resources S ρ} {err : AgreementError}
    (h : (e.keyGen res).result = .error err) : (e.keyGen res).engine = e := by
  unfold keyGen at h ⊢
  split at h
  · simp at h
  · rfl

/-- The call reports a failure. -/
def Call.Fails (p : Parameters S) (e : Engine S) (d : Directory S) : Call S ρ → Prop
  | .keyGen r => ∃ err, (e.keyGen ⟨d, r⟩).result = .error err
  | .prove group current tier slot r =>
    ∃ err, (e.prove p group current tier slot ⟨d, r⟩).result = .error err
  | .derive group slot share expected => (e.derive group slot share expected).1 = false
  | .absorb proof => ∃ err, (e.absorb p d proof).1 = .error err
  | .abandon => False

/-- The call throws the key of the engine away: it is for a proof of a slot that is there, the key
has backed a proof before, and every number drawn for a fresh key is refused. -/
def Call.LosesKey (p : Parameters S) (e : Engine S) (d : Directory S) : Call S ρ → Prop
  | .prove _ _ tier slot r => HasSlot p tier slot ∧ (∃ key, e.key = some key ∧ key.used = true) ∧
    (NodeKey.fresh (S := S) ⟨d, r⟩).1 = .error .keyIdExhausted
  | .keyGen _ | .derive .. | .absorb _ | .abandon => False

/-- Throwing the key away is a failure, and nothing else is lost with it. -/
theorem Call.LosesKey.spec {c : Call S ρ} (h : c.LosesKey p e d) :
    c.Fails p e d ∧ e.key ≠ none ∧ (e.call p d c).engine = { e with key := none } := by
  cases c with
  | prove group current tier slot r =>
    obtain ⟨⟨scale, hscale, hlt⟩, ⟨key, hkey, hused⟩, hfresh⟩ := h
    have hunused : (e.unusedKey ⟨d, r⟩).1 = .error .keyIdExhausted := by
      refine unusedKey_error_iff.2 ⟨fun key' hkey' => ?_, hfresh⟩
      obtain rfl : key = key' := Option.some.inj (hkey.symm.trans hkey')
      exact hused
    have herr := (prove_error_iff hscale hlt group current).2 ⟨rfl, hunused⟩
    refine ⟨⟨_, herr⟩, by simp [hkey], ?_⟩
    rcases engine_of_prove_error herr with ⟨hslot, -⟩ | ⟨-, -, hengine⟩
    · exact absurd ⟨scale, hscale, hlt⟩ hslot
    · exact hengine
  | keyGen | derive | absorb | abandon => exact h.elim

/-- **A failing call changes nothing**, neither the key with its number and its mark nor the join
that is waited for nor the group key pair, whatever the engine, the directory and the draws. There
is one exception: an engine that has used its key loses it to a proof for which no number is found.
-/
theorem failed_call_keeps (c : Call S ρ) (h : c.Fails p e d) :
    ((e.call p d c).engine = e ↔ ¬c.LosesKey p e d) ∧
      (c.LosesKey p e d → (e.call p d c).engine = { e with key := none }) := by
  refine ⟨⟨fun hkept hloses => ?_, fun hkeeps => ?_⟩, fun hloses => hloses.spec.2.2⟩
  · obtain ⟨-, hkey, hlost⟩ := hloses.spec
    rw [hkept] at hlost
    exact hkey (congrArg Engine.key hlost)
  · cases c with
    | keyGen r =>
      obtain ⟨err, herr⟩ := h
      exact engine_of_keyGen_error herr
    | prove group current tier slot r =>
      obtain ⟨err, herr⟩ := h
      rcases engine_of_prove_error herr with ⟨-, hengine⟩ | ⟨hslot, hunused, hengine⟩
      · exact hengine
      · -- Without a key there was nothing to lose.
        obtain ⟨hused, hfresh⟩ := unusedKey_error_iff.1 hunused
        have hnone : e.key = none := by
          cases hkey : e.key with
          | none => rfl
          | some key => exact absurd ⟨hslot, ⟨key, hkey, hused key hkey⟩, hfresh⟩ hkeeps
        exact hengine.trans (hnone ▸ rfl)
    | derive group slot share expected => exact engine_of_derive_false h
    | absorb proof =>
      obtain ⟨err, herr⟩ := h
      exact absorb_error (Prod.ext herr rfl)
    | abandon => exact h.elim

/-! ### Draws that repeat themselves -/

/-- A generator that gives one byte over and over. -/
structure Repeating where
  byte : UInt8

instance : Generator Repeating where
  bytes n r := (List.replicate n r.byte, r)
  length_bytes _ _ := List.length_replicate

/-- An engine has published a key under the number that is drawn, and has proved its join for the
first slot of a group. -/
def sampleRepeated : Outcome .sample Repeating (JoinProof .sample) :=
  prove sampleSetup.1 (.new 0 0 ⟨80⟩) Fleet.sampleCurrent 0 0 .empty ⟨.empty, ⟨7⟩⟩

/-- A key is to be published, and a proof is to be made for the second slot. -/
def sampleRefused : Call .sample Repeating × Call .sample Repeating :=
  (.keyGen ⟨7⟩, .prove (.new 0 0 ⟨80⟩) Fleet.sampleCurrent 0 1 ⟨7⟩)

theorem failed_call_keeps_used_key :
    let d := sampleRepeated.resources.directory
    sampleRefused.1.Fails sampleSetup.1 sampleRepeated.engine d ∧
      (sampleRepeated.engine.call sampleSetup.1 d sampleRefused.1).engine =
        sampleRepeated.engine := by
  intro d
  have hfails : sampleRefused.1.Fails sampleSetup.1 sampleRepeated.engine d :=
    exists_error_of_toOption (by decide +kernel)
  exact ⟨hfails, (failed_call_keeps _ hfails).1.2 fun hloses => hloses⟩

/-- **A failing call that changes the engine.** An engine has proved its join for the first slot of
a group and is to prove one for the second. Sixteen times the number is drawn that its key has
already, the call fails, and the key is gone. -/
theorem key_lost_by_refusals :
    let d := sampleRepeated.resources.directory
    sampleRefused.2.Fails sampleSetup.1 sampleRepeated.engine d ∧
      d.refusals = 0 ∧ d.size = 1 ∧
      sampleRepeated.engine.key.map (fun key => (key.id, key.used)) = some (117901063, true) ∧
      (sampleRepeated.engine.call sampleSetup.1 d sampleRefused.2).engine.key.map
        (fun key => (key.id, key.used)) = none :=
  ⟨exists_error_of_toOption (by decide +kernel), by decide +kernel, by decide +kernel,
    by decide +kernel, by decide +kernel⟩

end Engine

end GroupKey
