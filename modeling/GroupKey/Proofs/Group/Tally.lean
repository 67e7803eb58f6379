import GroupKey.Group.Managed
import GroupKey.Proofs.Group.Bitmap
import Mathlib.Data.Finset.Card
import Mathlib.Data.Finset.Range

/-!
# Snapshots that tally

The number of members and the bitmap of a snapshot are written down apart from each other. They
tally if both come from one set of taken slots. A coordinator hands out the first free slot, so that
the slots taken in its groups are the first ones; then the number of members says all.

* `Tallies` — the set of slots behind a snapshot.
* `Tallies.fill` — one more member.
* `lists_freeSlots`, `eq_of_head?_freeSlots` — the free slots, and the slot that is handed out.
* `Tallies.exists_gap` — a snapshot with more members shows a slot that was missed.
-/

namespace GroupKey

variable {S : Suite}

namespace Snapshot

/-- The number of members and the bitmap are those of a set of slots. -/
structure Tallies (g : Snapshot S) (scale : Nat) (taken : Finset Nat) : Prop where
  length : g.slots.bytes.length = Bitmap.byteCount scale
  lt : ∀ slot ∈ taken, slot < scale
  isOccupied_iff : ∀ slot : UInt32, g.isOccupied slot = true ↔ slot.toNat ∈ taken
  count : g.memberCount.toNat = taken.card

variable {g g' info : Snapshot S} {scale n : Nat} {taken : Finset Nat} {slot : UInt32}

theorem tallies_free (hslots : g.slots = .free scale) (hcount : g.memberCount = 0) :
    g.Tallies scale ∅ where
  length := by rw [hslots, Bitmap.length_free]
  lt slot h := absurd h (Finset.notMem_empty slot)
  isOccupied_iff slot := by simp [isOccupied, hslots]
  count := by rw [hcount, Finset.card_empty, UInt32.toNat_zero]

theorem Tallies.notMem (h : g.Tallies scale taken) (hfree : g.isOccupied slot = false) :
    slot.toNat ∉ taken := by
  intro hmem
  rw [(h.isOccupied_iff slot).2 hmem] at hfree
  simp at hfree

theorem Tallies.count_lt (h : g.Tallies scale taken) {i : Nat} (hi : i < scale) (hnew : i ∉ taken) :
    g.memberCount.toNat < scale := by
  have hsub : insert i taken ⊆ Finset.range scale := by
    intro j hj
    rcases Finset.mem_insert.1 hj with rfl | hj
    · exact Finset.mem_range.2 hi
    · exact Finset.mem_range.2 (h.lt j hj)
  have hcard := Finset.card_le_card hsub
  rw [Finset.card_insert_of_notMem hnew, Finset.card_range, ← h.count] at hcard
  exact hcard

theorem Tallies.fill (h : g.Tallies scale taken) (hscale : scale < UInt32.size)
    (hslot : slot.toNat < scale) (hnew : slot.toNat ∉ taken)
    (hslots : g'.slots = g.slots.occupy slot) (hcount : g'.memberCount = g.memberCount + 1) :
    g'.Tallies scale (insert slot.toNat taken) where
  length := by rw [hslots, Bitmap.length_occupy, h.length]
  lt i hi := by
    rcases Finset.mem_insert.1 hi with rfl | hi
    · exact hslot
    · exact h.lt i hi
  isOccupied_iff i := by
    rw [isOccupied, hslots, Bitmap.isOccupied_occupy, Finset.mem_insert]
    refine or_congr ⟨fun hi => hi.1 ▸ rfl, ?_⟩ (h.isOccupied_iff i)
    intro hi
    obtain rfl := UInt32.toNat_inj.1 hi
    exact ⟨rfl, Bitmap.reaches_of_lt h.length hslot⟩
  count := by
    have hlt := h.count_lt hslot hnew
    rw [hcount, Finset.card_insert_of_notMem hnew, ← h.count]
    show (g.memberCount.toNat + 1) % UInt32.size = _
    exact Nat.mod_eq_of_lt (by omega)

/-! ## Groups that are filled in order -/

theorem Tallies.count_range (h : g.Tallies scale (Finset.range n)) : g.memberCount.toNat = n := by
  rw [h.count, Finset.card_range]

theorem Tallies.le_of_free (h : g.Tallies scale (Finset.range n))
    (hfree : g.isOccupied slot = false) :
    n ≤ slot.toNat := by
  have := h.notMem hfree
  rwa [Finset.mem_range, Nat.not_lt] at this

/-- **More members than known show a slot that was missed.** -/
theorem Tallies.exists_gap (h : g.Tallies scale taken) (hscale : scale < UInt32.size)
    (hinfo : info.Tallies scale (Finset.range n)) (hlt : g.memberCount < info.memberCount) :
    ∃ slot, slot ∈ (g.slots.diff info.slots).filter info.isOccupied := by
  have hcard : taken.card < (Finset.range n).card := by
    rw [← h.count, ← hinfo.count]
    exact UInt32.lt_iff_toNat_lt.1 hlt
  obtain ⟨i, hi, hnew⟩ := Finset.exists_mem_notMem_of_card_lt_card hcard
  have hi_lt : i < scale := hinfo.lt i hi
  have hi_eq : (UInt32.ofNat i).toNat = i := UInt32.toNat_ofNat_of_lt' (hi_lt.trans hscale)
  have hthere : info.isOccupied (.ofNat i) = true := (hinfo.isOccupied_iff _).2 (hi_eq.symm ▸ hi)
  have hhere : ¬g.isOccupied (.ofNat i) = true := fun hocc =>
    hnew (hi_eq ▸ (h.isOccupied_iff _).1 hocc)
  refine ⟨.ofNat i, List.mem_filter.2 ⟨Bitmap.mem_diff ?_ ?_ fun heq => hhere ?_, hthere⟩⟩
  · exact Bitmap.reaches_of_lt h.length (hi_eq.symm ▸ hi_lt)
  · exact Bitmap.reaches_of_lt hinfo.length (hi_eq.symm ▸ hi_lt)
  · exact heq.trans hthere

end Snapshot

namespace ManagedGroup

theorem lists_freeSlots (g : ManagedGroup S) (hscale : g.scale < UInt32.size) :
    Lists g.freeSlots fun slot => slot.toNat < g.scale ∧ g.info.isOccupied slot = false :=
  (Bitmap.lists_slotsBelow hscale _).congr fun slot => by simp

/-- **The slot that is handed out** is the next one, if the slots were filled in order. -/
theorem eq_of_head?_freeSlots {g : ManagedGroup S} {n : Nat}
    (h : g.info.Tallies g.scale (Finset.range n)) (hscale : g.scale < UInt32.size) {slot : UInt32}
    (hslot : g.freeSlots.head? = some slot) : slot.toNat = n := by
  obtain ⟨⟨hlt, hfree⟩, hleast⟩ := (g.lists_freeSlots hscale).of_head? hslot
  refine Nat.le_antisymm (Nat.not_lt.1 fun hn => ?_) (h.le_of_free hfree)
  have htoNat : (UInt32.ofNat n).toNat = n :=
    UInt32.toNat_ofNat_of_lt' (Nat.lt_trans hn (Nat.lt_trans hlt hscale))
  -- Were it a later one, the next would be free as well.
  refine hleast (.ofNat n) ?_ ⟨?_, Bool.eq_false_iff.2 fun hocc => ?_⟩
  · rwa [UInt32.lt_iff_toNat_lt, htoNat]
  · rw [htoNat]
    exact Nat.lt_trans hn hlt
  · rw [h.isOccupied_iff, htoNat] at hocc
    exact Finset.notMem_range_self hocc

end ManagedGroup

end GroupKey
