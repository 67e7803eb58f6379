import GroupKey.Proofs.Agreement.KeyPairs
import GroupKey.Proofs.Group.Ceremony
import GroupKey.Proofs.Node.Resilience

/-!
# The keys of the coordinator follow joins

The coordinator is no member of its groups, but it has the entries that setup has not published. The
share of a free slot and the unpublished entry of that slot add up to a decryption key of the group.
An accepted join changes the key of the group and all shares. If the entries of its proof are as
they should be, the share of each slot that is still free goes along, and the free slots still open
the group.

* `ManagedGroup.IsOpenable` — every free slot opens the key of its group.
* `isOpenable_bootstrap`, `IsOpenable.seated` — new groups, and groups with one more member.
* `Coordinator.Opens`, `Opens.run` — all groups held, after any run whose joins had such proofs.
* `exists_pseudoKey?` — so a group with a free slot has a decryption key.
-/

namespace GroupKey

variable {S : Suite} {ρ : Type}

/-! ## Groups -/

namespace ManagedGroup

/-- The share of every free slot and the unpublished entry of the slot open the key of the group. -/
def IsOpenable (p : Parameters S) (secrets : SlotSecrets S) (g : ManagedGroup S) : Prop :=
  ∀ slot : UInt32, slot.toNat < g.scale → g.info.isOccupied slot = false → ∃ share diagonal,
    g.shares[slot.toNat]? = some share ∧ secrets.diagonal? g.info.tier slot = some diagonal ∧
      p.Opens (share + diagonal) slot.toNat g.info.key

variable [S.BilinearPairing] {p : Parameters S} {secrets : SlotSecrets S} {id : GroupId}
  {g g' : ManagedGroup S}

theorem isOpenable_bootstrap (hp : p.IsSetup secrets) {seq tier : UInt16} {expiry : Timestamp}
    (h : bootstrap p seq tier expiry = .ok g) : g.IsOpenable p secrets := by
  cases ht : p.tier tier with
  | error err => simp [bootstrap, ht] at h
  | ok t =>
    obtain ⟨g', hg', -, htier, -, hbal⟩ := balanced_bootstrap seq expiry ht (hp.isShaped ht)
    obtain rfl : g = g' := Except.ok.inj (h.symm.trans hg')
    intro slot hslot _
    exact Ceremony.opens_bootstrap hp (htier.symm ▸ ht) hbal (hbal.scale ▸ hslot)

/-- **A join keeps the free slots open** if the entries of its proof carry the keys of its maker. -/
theorem IsOpenable.seated (hopen : g.IsOpenable p secrets) (hp : p.IsSetup secrets)
    (h : g.IsConsistent p id) {t : SizeTier S} {directory : Directory S} {proof : JoinProof S}
    {key : PublicKey S} (ht : p.tier g.info.tier = .ok t) (hfits : proof.Fits t.scale)
    (hkey : directory.get? proof.keyId = some key) (hcarried : proof.IsCarried p directory)
    (hseated : IsSeated t ⟨proof, key⟩ g g') : g'.IsOpenable p secrets := by
  have hscale : g.scale = t.scale := h.scale_eq ht
  have hlength : t.scale ≤ p.h.length := (hp.scale _ t (Parameters.tier_eq_ok.1 ht)).2
  intro slot hslot hfree
  rw [hseated.scale] at hslot
  have hlt : slot.toNat < t.scale := hscale ▸ hslot
  rw [hseated.info, Snapshot.isOccupied, Snapshot.seated, ← Bool.not_eq_true,
    Bitmap.isOccupied_occupy, not_or, Bool.not_eq_true] at hfree
  obtain ⟨hother, hfree⟩ := hfree
  have hne : slot.toNat ≠ proof.slot.toNat := fun heq =>
    hother ⟨UInt32.toNat_inj.1 heq.symm, Bitmap.reaches_of_lt h.length_slots hslot⟩
  obtain ⟨share, diagonal, hshare, hdiagonal, hopens⟩ := hopen slot hslot hfree
  obtain ⟨z, hz⟩ := Option.isSome_iff_exists.1 (hfits.entry?_isSome _ hlt hne)
  have hin := hcarried key hkey _ (Nat.lt_of_lt_of_le hlt hlength) z hz
  have hout := (hp.carries_row ht hfits.slot_lt).1 _ hlt (Ne.symm hne)
  have hnew := hopens.replace hin hout
  rw [show share + diagonal + (z - t.entry proof.slot.toNat slot.toNat) =
    share + z - t.entry proof.slot.toNat slot.toNat + diagonal by abel] at hnew
  refine ⟨share + z - t.entry proof.slot.toNat slot.toNat, diagonal, ?_, ?_, ?_⟩
  · rw [hseated.share, hshare, Option.map_some, hz]
    rfl
  · rwa [hseated.info]
  · rw [hseated.info]
    exact hnew

end ManagedGroup

namespace Coordinator

variable {ctx : Context S} {secrets : SlotSecrets S} {c : Coordinator S ρ} {e : Stimulus S}

/-! ## The groups held -/

/-- The coordinator holds together, has the unpublished entries, and can open each of its groups
through every free slot. -/
structure Opens (ctx : Context S) (secrets : SlotSecrets S) (c : Coordinator S ρ) : Prop where
  consistent : c.IsConsistent ctx
  held : c.secrets = secrets
  openable : ∀ (id : GroupId) (g : ManagedGroup S), c.groups[id]? = some g →
    g.IsOpenable ctx.parameters secrets

/-- Every join that was accepted had a proof whose entries carry the keys of its maker. -/
def AdmitsCarried (ctx : Context S) (trace : List (Emission S)) : Prop :=
  ∀ x ∈ trace, ∀ ack, x.message = .joinAck ack → ∀ join, x.cause.Carries ctx (.join join) →
    join.proof.IsCarried ctx.parameters x.cause.directory

theorem opens_new {pid : UInt32} {generator : ρ}
    (h : Coordinator.new ctx pid secrets generator = .ok c) : Opens ctx secrets c := by
  have hconsistent := (state_new h).1
  obtain ⟨tier, -, rfl⟩ := eq_of_new h
  exact ⟨hconsistent, rfl, by simp⟩

/-- **A group with a free slot has a decryption key.** -/
theorem Opens.exists_pseudoKey? (h : c.Opens ctx secrets) (hp : ctx.parameters.IsSetup secrets)
    {id : GroupId} {g : ManagedGroup S} (hheld : c.groups[id]? = some g)
    (hfree : g.freeSlots ≠ []) :
    ∃ slot d, c.pseudoKey? g = some (slot, d) ∧ slot.toNat < ctx.parameters.h.length ∧
      ctx.parameters.Opens d slot.toNat g.info.key := by
  have hscale := (h.consistent.group id g hheld).scale
  obtain ⟨slot, hslot⟩ := Option.isSome_iff_exists.1 (List.isSome_head?.2 hfree)
  have hnext := ManagedGroup.isNextSlot_of_head? (hp.hasNumberedSlots _ _ hscale) hslot
  obtain ⟨t, ht, hlength⟩ := Parameters.scale_eq_ok.1 hscale
  obtain ⟨share, diagonal, hshare, hdiagonal, hopens⟩ :=
    h.openable id g hheld slot hnext.lt hnext.free
  refine ⟨slot, share + diagonal, ?_, ?_, hopens⟩
  · simp [pseudoKey?, hslot, h.held, hdiagonal, hshare]
  · have hle := (hp.scale _ t (Parameters.tier_eq_ok.1 ht)).2
    exact Nat.lt_of_lt_of_le (hlength ▸ hnext.lt) hle

/-! ## Steps -/

theorem Ticks.openable [S.BilinearPairing] {now : Timestamp}
    {r : Except NodeError (List (Message S)) × Coordinator S ρ}
    (hticks : Ticks ctx now c .heartbeat r) (h : c.Opens ctx secrets)
    (hp : ctx.parameters.IsSetup secrets) (id : GroupId) (g : ManagedGroup S)
    (hg : r.2.groups[id]? = some g) : g.IsOpenable ctx.parameters secrets := by
  have hlive {id : GroupId} {g : ManagedGroup S} (hg : (c.live now)[id]? = some g) :
      g.IsOpenable ctx.parameters secrets := h.openable id g (of_getElem?_live hg)
  cases hticks with
  | stalled | continued => exact hlive hg
  | founded filled founds =>
    rcases getElem?_insert_cases hg with ⟨-, rfl⟩ | ⟨-, hg⟩
    · exact ManagedGroup.isOpenable_bootstrap hp founds
    · exact hlive hg

variable [Generator ρ]

theorem Reacts.secrets_eq {r : Except NodeError (List (Message S)) × Coordinator S ρ}
    (h : Reacts ctx e c r) : r.2.secrets = c.secrets := by
  cases h with
  | unread => rfl
  | handled arrived h => cases h <;> rfl
  | ticked fired h => cases h <;> rfl

variable [S.BilinearPairing]

/-- **A step keeps the free slots open.** -/
theorem Opens.step {r : Except NodeError (List (Message S)) × Coordinator S ρ}
    (h : c.Opens ctx secrets) (hp : ctx.parameters.IsSetup secrets) (hreacts : Reacts ctx e c r)
    (hjoins : AdmitsCarried ctx ((emitted r.1).map (⟨e, ·⟩))) : r.2.Opens ctx secrets := by
  refine ⟨h.consistent.alters hp.hasNumberedSlots hreacts.alters,
    hreacts.secrets_eq.trans h.held, ?_⟩
  cases hreacts.regroups with
  | quiet quiet =>
    rw [quiet.same.groups]
    exact h.openable
  | heartbeat fired ticks => exact ticks.openable h hp
  | unseated arrived admits seat =>
    -- The joiner of a checked proof is always seated.
    obtain ⟨_, _, _, _, -, -, hseat, -⟩ := admits.seat hp h.consistent
    simp [hseat] at seat
  | @seated join g₀ g' share arrived admits seat =>
    have hgroup := h.consistent.group _ g₀ admits.held
    obtain ⟨t, key, _, _, ht, hkey, hseat, hseated, -⟩ := admits.seat hp h.consistent
    obtain ⟨-, rfl⟩ := Prod.mk.inj (seat.symm.trans hseat)
    obtain ⟨-, hfits, -⟩ := JoinProof.fits_of_tier ht admits.valid
    have hcarried : join.proof.IsCarried ctx.parameters e.directory :=
      hjoins ⟨e, _⟩ (List.mem_singleton_self _) _ rfl join arrived
    intro id g hg
    rcases getElem?_insert_cases hg with ⟨-, rfl⟩ | ⟨-, hg⟩
    · exact (h.openable _ g₀ admits.held).seated hp hgroup (admits.tier ▸ ht) hfits hkey hcarried
        hseated
    · exact h.openable id g hg

theorem Opens.run (h : c.Opens ctx secrets) (hp : ctx.parameters.IsSetup secrets)
    (events : List (Stimulus S)) (hjoins : AdmitsCarried ctx (emissions ctx c events)) :
    (c.run ctx events).Opens ctx secrets := by
  induction events generalizing c with
  | nil => exact h
  | cons e events ih =>
    have hhead := h.step hp (reacts_react ctx e c) fun x hx =>
      hjoins x (List.mem_append_left _ hx)
    exact ih hhead fun x hx => hjoins x (List.mem_append_right _ hx)

end Coordinator

end GroupKey
