import GroupKey.Proofs.Agreement.Engine
import GroupKey.Proofs.Agreement.Weights
import GroupKey.Proofs.Wire.RoundTrip

/-!
# Honest proofs are accepted

The maker of a proof computes its entries from two exponents, the check compares pairings. Both see
the same equation, so no entry of an honest proof deviates, and the check passes whatever the
weights are. Neither the wire nor time changes that: the entry left out of the frame is the one that
is absent, and a key once published stays.

* `check_of_isMade` — an honest proof passes the check of everyone who finds its key.
* `length_entries_of_fits` — how many bytes the entries of a proof take.
* `decode_join` — the frame of a join gives it back.
* `join_complete` — what an engine proves is accepted, then and later, here and over the wire.
-/

namespace GroupKey

variable {S : Suite} {ρ σ τ : Type} [Generator ρ] [Generator σ] [Generator τ]

namespace JoinProof

section Check

variable [S.BilinearPairing] {p : Parameters S}

theorem deviationOf_eq_zero {z : S.G1} {j : Nat} {combined : S.G1} {u : S.G2}
    (h : p.Carries z j combined u) : deviationOf p combined u z j = 0 := by
  rw [deviationOf, h, add_sub_cancel_left, sub_self]

/-- **An honest proof passes the check** of everyone who finds the key that it was made with,
whatever weights are drawn. -/
theorem check_of_isMade {directory : Directory S} {proof : JoinProof S} {key : PublicKey S}
    {t : SizeTier S} {reserved : S.G1} (ht : p.tier proof.tier = .ok t)
    (h : Contribution.IsMade p t ⟨proof, key⟩ reserved)
    (hkey : directory.get? proof.keyId = some key) (r : ρ) :
    (proof.check p directory r).1 = true := by
  rw [check_eq_decide (Parameters.scale_of_tier ht) h.fits hkey]
  refine decide_eq_true (weightedSum_eq_zero (fun j hj => ?_) _)
  obtain ⟨hlt, hne⟩ := List.mem_filter.1 hj
  exact deviationOf_eq_zero (h.carries j (List.mem_range.1 hlt) (of_decide_eq_true hne))

end Check

/-! ## Frames -/

section Frames

variable [S.FaithfulPoints] {p : Parameters S}

theorem length_flatMap_point1 {zs : List (Option S.G1)} (h : ∀ z ∈ zs, z.isSome = true) :
    (zs.flatMap fun z => (z.map Wire.point1).getD []).length = 50 * zs.length := by
  induction zs with
  | nil => rfl
  | cons z zs ih =>
    obtain ⟨x, rfl⟩ := Option.isSome_iff_exists.1 (h z List.mem_cons_self)
    have hpoint : (Wire.point1 x).length = 50 := Wire.length_point1 (G := .all S) trivial
    rw [List.flatMap_cons, List.length_append, ih fun z hz => h z (List.mem_cons_of_mem _ hz),
      Option.map_some, Option.getD_some, hpoint, List.length_cons]
    omega

/-- All entries but one are written. -/
theorem length_entries_of_fits {proof : JoinProof S} {scale : Nat} (h : proof.Fits scale) :
    (proof.z.flatMap fun z => (z.map Wire.point1).getD []).length = 50 * (scale - 1) := by
  obtain ⟨hlength, hslot, hnone⟩ := fits_iff.1 h
  have hlt : proof.slot.toNat < proof.z.length := hlength.symm ▸ hslot
  have hself : proof.z[proof.slot.toNat] = none := by
    simpa [List.getElem?_eq_getElem hlt] using (hnone _ hslot).2 rfl
  have hother {k : Nat} (hk : k < proof.z.length) (hne : k ≠ proof.slot.toNat) :
      (proof.z[k]).isSome = true := by
    rw [Option.isSome_iff_ne_none]
    intro hz
    exact hne ((hnone k (hlength ▸ hk)).1 (by rw [List.getElem?_eq_getElem hk, hz]))
  have hbefore : ∀ z ∈ proof.z.take proof.slot.toNat, z.isSome = true := by
    intro z hz
    obtain ⟨k, hk, rfl⟩ := List.mem_take_iff_getElem.1 hz
    exact hother (by omega) (by omega)
  have hafter : ∀ z ∈ proof.z.drop (proof.slot.toNat + 1), z.isSome = true := by
    intro z hz
    obtain ⟨k, hk, rfl⟩ := List.mem_drop_iff_getElem.1 hz
    exact hother (k := proof.slot.toNat + 1 + k) (by omega) (by omega)
  have hsplit : proof.z = proof.z.take proof.slot.toNat ++
      none :: proof.z.drop (proof.slot.toNat + 1) := by
    rw [← hself, List.getElem_cons_drop, List.take_append_drop]
  rw [hsplit, List.flatMap_append, List.flatMap_cons, List.length_append, List.length_append,
    length_flatMap_point1 hbefore, length_flatMap_point1 hafter, List.length_take,
    List.length_drop, hlength, Nat.min_eq_left hslot.le]
  simp only [Option.map_none, Option.getD_none, List.length_nil]
  omega

theorem decode_join {proof : JoinProof S} {scale : Nat} (hscale : p.scale proof.tier = .ok scale)
    (hfits : proof.Fits scale) (hgroup : proof.group.IsWellFormed) (pid : UInt32) :
    Message.decode p (Message.encode (.join ⟨pid, proof⟩)) =
      if 50 * scale + 80 < UInt32.size then .ok (.join ⟨pid, proof⟩)
      else .error (.lengthMismatch ((50 * scale + 80) % UInt32.size) (50 * scale + 80)) := by
  have hshape : (Message.join ⟨pid, proof⟩).IsShaped (.all S) p :=
    ⟨hgroup, ⟨scale, hscale, hfits⟩, trivial, fun _ _ => trivial⟩
  have hlength : (Message.join (S := S) ⟨pid, proof⟩).payload.length = 50 * scale + 80 := by
    have hslot := hfits.slot_lt
    have hpoint : (Wire.point2 proof.u).length = 98 := Wire.length_point2 (G := .all S) trivial
    simp only [Message.payload, Wire.joinProof, List.length_append, Bytes.length_ofUInt32,
      GroupId.length_toBytes, GroupId.size, hpoint, length_entries_of_fits hfits]
    omega
  rw [Message.decode_encode hshape, hlength]

end Frames

end JoinProof

/-! ## Later directories -/

/-- The directory after uploads of any keys, by anyone. -/
def Directory.uploadAll (d : Directory S) (uploads : List (UInt32 × PublicKey S)) : Directory S :=
  uploads.foldl (fun d x => (d.upload x.1 x.2).2) d

theorem Directory.extends_uploadAll (d : Directory S) (uploads : List (UInt32 × PublicKey S)) :
    (d.uploadAll uploads).Extends d := by
  induction uploads generalizing d with
  | nil => exact .refl d
  | cons x uploads ih => exact (ih _).trans (d.extends_upload x.1 x.2)

variable (τ) in
/-- **Honest joins are accepted.** Let the parameters come from a successful setup, and let an
engine, after any operations of its own and of others on the directory, make a proof for a slot of a
group. Then the proof has the shape of its tier. Whatever is uploaded after it and whatever weights
are drawn, it is accepted, and so is every proof that is read from the frame of its join: the same,
unless the tier is too large for frames. -/
theorem Engine.join_complete [S.BilinearPairing] [S.FaithfulPoints] {level : UInt32}
    {maxGroupSize sizeStep : Nat} {r r' : σ} {p : Parameters S} {secrets : SlotSecrets S}
    (hsetup : Parameters.setup level maxGroupSize sizeStep r = (.ok (p, secrets), r'))
    {d : Directory S} {e : Engine S} (he : Reachable p d e) {group : GroupId}
    (hgroup : group.IsWellFormed) (current : EncryptionKey S) (tier : UInt16) (slot : UInt32)
    (s : ρ) {proof : JoinProof S}
    (hok : (e.prove p group current tier slot ⟨d, s⟩).result = .ok proof) :
    ∃ scale, p.scale tier = .ok scale ∧ proof.tier = tier ∧ proof.slot = slot ∧
      proof.Fits scale ∧
      ∀ uploads (w : τ),
        let directory :=
          (e.prove p group current tier slot ⟨d, s⟩).resources.directory.uploadAll uploads
        (proof.check p directory w).1 = true ∧
        ∀ pid, Message.decode p (Message.encode (.join ⟨pid, proof⟩)) =
            (if 50 * scale + 80 < UInt32.size then .ok (.join ⟨pid, proof⟩)
              else .error (.lengthMismatch ((50 * scale + 80) % UInt32.size) (50 * scale + 80))) ∧
          ∀ m, Message.decode p (Message.encode (.join ⟨pid, proof⟩)) = .ok m →
            ∃ join, m = .join join ∧ (join.proof.check p directory w).1 = true := by
  have hp := Parameters.isSetup_of_setup hsetup
  obtain ⟨t, key, reserved, ht, hmade, htier, hslot, hkey, -⟩ := prove_ok hp he.honest hok
  obtain ⟨hproof, -, -⟩ := prove_names hok
  have hscale : p.scale proof.tier = .ok t.scale := by
    rw [htier]
    exact Parameters.scale_of_tier ht
  have hdecode := JoinProof.decode_join hscale hmade.fits (hproof ▸ hgroup)
  refine ⟨t.scale, htier ▸ hscale, htier, hslot, hmade.fits, fun uploads w => ?_⟩
  intro directory
  have haccepted : (proof.check p directory w).1 = true :=
    JoinProof.check_of_isMade (htier ▸ ht) hmade (Directory.extends_uploadAll _ uploads _ _ hkey) w
  refine ⟨haccepted, fun pid => ⟨hdecode pid, fun m hm => ?_⟩⟩
  rw [hdecode pid] at hm
  split at hm
  · obtain rfl := Except.ok.inj hm
    exact ⟨⟨pid, proof⟩, rfl, haccepted⟩
  · simp at hm

/-- A first engine proves its join for the second slot of a group. -/
def sampleProving : Engine.Outcome .sample Counter (JoinProof .sample) :=
  Engine.empty.prove sampleSetup.1 (.new 0 0 ⟨80⟩) ⟨Suite.sample.base2, Suite.sample.base1⟩ 0 1
    ⟨.empty, Counter.mk 9⟩

theorem Engine.join_complete_second_slot :
    ∃ proof, sampleProving.result = .ok proof ∧ proof.slot = 1 ∧ proof.Fits 2 ∧
      ∀ uploads (w : Counter),
        (proof.check sampleSetup.1 (sampleProving.resources.directory.uploadAll uploads) w).1 =
            true ∧
          ∀ pid, Message.decode sampleSetup.1 (Message.encode (.join ⟨pid, proof⟩)) =
            .ok (.join ⟨pid, proof⟩) := by
  have hok := eq_ok_of_toOption (e := sampleProving.result) (by decide +kernel)
  have htwo : sampleSetup.1.scale 0 = .ok 2 :=
    (eq_ok_of_toOption (by decide +kernel)).trans (congrArg Except.ok (by decide +kernel))
  obtain ⟨scale, hscale, -, hslot, hfits, haccepted⟩ := join_complete Counter setup_sample
    (.empty .empty) (by decide +kernel) ⟨Suite.sample.base2, Suite.sample.base1⟩ 0 1
    (Counter.mk 9) hok
  obtain rfl : scale = 2 := Except.ok.inj (hscale.symm.trans htwo)
  refine ⟨_, hok, hslot, hfits, fun uploads w => ?_⟩
  obtain ⟨hcheck, hframes⟩ := haccepted uploads w
  refine ⟨hcheck, fun pid => ?_⟩
  rw [(hframes pid).1, if_pos (by decide)]

end GroupKey
