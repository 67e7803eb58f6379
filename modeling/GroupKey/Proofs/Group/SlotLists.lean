import GroupKey.Proofs.Group.Tally
import GroupKey.Proofs.Suite.Exponents

/-!
# Lists of slots

A bitmap is a set of slots, and what it tells is told as lists: the slots that are occupied, those
that are free, those on which two bitmaps differ. Each list is in ascending order and holds just the
slots that it is about, so the functions agree on what a bitmap says, however many bytes it has.

* `lists_occupied` — the slots that are occupied.
* `diff_eq_occupied` — the difference of two bitmaps as the slots of a third.
* `slot_lists` — all lists at once.
-/

namespace GroupKey

namespace Bitmap

/-! ## Occupied slots -/

theorem Reaches.lt {b : Bitmap} {slot : UInt32} :
    b.Reaches slot ↔ slot.toNat < 8 * b.bytes.length := by
  unfold Reaches
  omega

theorem reaches_of_isOccupied {b : Bitmap} {slot : UInt32} (h : b.isOccupied slot = true) :
    b.Reaches slot := by
  obtain ⟨byte, hbyte, -⟩ := (b.isOccupied_iff slot).1 h
  exact (List.getElem?_eq_some_iff.1 hbyte).1

theorem lists_occupied {b : Bitmap} (hb : b.bytes.length < 2 ^ 29) :
    Lists b.occupied fun slot => b.isOccupied slot = true := by
  have hcount : b.bytes.length * 8 < UInt32.size := by
    have : UInt32.size = 2 ^ 29 * 8 := rfl
    omega
  refine Lists.congr (lists_slotsBelow hcount b.isOccupied) fun slot => and_iff_right_of_imp ?_
  intro hocc
  have hlt := Reaches.lt.1 (reaches_of_isOccupied hocc)
  rwa [Nat.mul_comm] at hlt

/-! ## Differences -/

/-- One more byte adds its own slots. -/
theorem occupied_concat (bytes : Bytes) (byte : UInt8) (h : bytes.length + 1 < 2 ^ 29) :
    (Bitmap.mk (bytes ++ [byte])).occupied =
      (Bitmap.mk bytes).occupied ++ slotsOfByte bytes.length byte := by
  have hsize : UInt32.size = 2 ^ 29 * 8 := rfl
  have htoNat : ∀ i < bytes.length * 8 + 8, (UInt32.ofNat i).toNat = i := fun i hi =>
    UInt32.toNat_ofNat_of_lt' (by omega)
  have hcount : (bytes ++ [byte]).length * 8 = bytes.length * 8 + 8 := by
    rw [List.length_append, List.length_singleton, Nat.succ_mul]
  have hbelow : ∀ n ≤ bytes.length * 8 + 8, (UInt32.ofNat n).toNat = n := fun n hn =>
    UInt32.toNat_ofNat_of_lt' (by omega)
  simp only [occupied, slotsBelow, hcount]
  rw [hbelow _ (Nat.le_refl _), hbelow _ (Nat.le_add_right _ _), List.range_add, List.map_append,
    List.filter_append, List.map_map]
  congr 1
  · -- The slots of the other bytes read the same bits.
    refine List.filter_congr fun slot hslot => ?_
    obtain ⟨i, hi, rfl⟩ := List.mem_map.1 hslot
    have hlt : i < bytes.length * 8 := List.mem_range.1 hi
    have hplace : (UInt32.ofNat i).toNat / 8 < bytes.length := by
      rw [htoNat i (by omega)]
      omega
    simp only [isOccupied, List.getElem?_append_left hplace]
  · rw [List.filter_map, slotsOfByte]
    refine congrArg _ (List.filter_congr fun bit hbit => ?_)
    have hlt : bit < 8 := List.mem_range.1 hbit
    have hvalue := htoNat (bytes.length * 8 + bit) (by omega)
    have hplace : (UInt32.ofNat (bytes.length * 8 + bit)).toNat / 8 = bytes.length := by omega
    have hmask : mask (.ofNat (bytes.length * 8 + bit)) = 0x80 >>> UInt8.ofNat bit := by
      rw [mask, show (UInt32.ofNat (bytes.length * 8 + bit)).toNat % 8 = bit by omega]
    have hget : (bytes ++ [byte])[(UInt32.ofNat (bytes.length * 8 + bit)).toNat / 8]? =
        some byte := by rw [hplace, List.getElem?_concat_length]
    show Bitmap.isOccupied ⟨bytes ++ [byte]⟩ (.ofNat (bytes.length * 8 + bit)) = _
    rw [isOccupied, hget, hmask]

theorem flatMap_slotsOfByte (bytes : Bytes) (h : bytes.length < 2 ^ 29) :
    bytes.zipIdx.flatMap (fun x => slotsOfByte x.2 x.1) = (Bitmap.mk bytes).occupied := by
  induction bytes using List.reverseRecOn with
  | nil => rfl
  | append_singleton bytes byte ih =>
    rw [List.length_append, List.length_singleton] at h
    rw [occupied_concat bytes byte h, ← ih (by omega), List.zipIdx_append, List.flatMap_append]
    simp

/-- The bits on which two bitmaps differ, as far as both reach. -/
def combine (a b : Bitmap) : Bitmap := ⟨List.zipWith (· ^^^ ·) a.bytes b.bytes⟩

theorem diff_eq_occupied {a b : Bitmap} (h : min a.bytes.length b.bytes.length < 2 ^ 29) :
    a.diff b = (a.combine b).occupied :=
  flatMap_slotsOfByte _ (by rwa [List.length_zipWith])

theorem isOccupied_combine (a b : Bitmap) (slot : UInt32) :
    (a.combine b).isOccupied slot = true ↔
      (a.Reaches slot ∧ b.Reaches slot) ∧ a.isOccupied slot ≠ b.isOccupied slot := by
  simp only [isOccupied, combine, List.getElem?_zipWith, Reaches]
  by_cases ha : slot.toNat / 8 < a.bytes.length
  · by_cases hb : slot.toNat / 8 < b.bytes.length
    · simp only [List.getElem?_eq_getElem ha, List.getElem?_eq_getElem hb, and_mask_eq_testBit,
        UInt8.toNat_xor, Nat.testBit_xor, ha, hb, and_self, true_and]
      exact bne_iff_ne
    · simp [hb]
  · simp [ha]

/-- The slots on which two bitmaps differ, of which one may be longer. -/
theorem lists_diff {a b : Bitmap} (h : min a.bytes.length b.bytes.length < 2 ^ 29) :
    Lists (a.diff b) fun slot => slot.toNat < 8 * min a.bytes.length b.bytes.length ∧
      a.isOccupied slot ≠ b.isOccupied slot := by
  have hlength : (a.combine b).bytes.length < 2 ^ 29 := by rwa [combine, List.length_zipWith]
  rw [diff_eq_occupied h]
  refine Lists.congr (lists_occupied hlength) fun slot => ?_
  rw [isOccupied_combine, Reaches.lt, Reaches.lt, ← Nat.mul_min_mul_left, Nat.lt_min]

theorem diff_comm (a b : Bitmap) : a.diff b = b.diff a := by
  rw [diff, diff, List.zipWith_comm_of_comm fun x y : UInt8 => UInt8.xor_comm x y]

/-! ## All lists -/

theorem isOccupied_occupyAll_zeros (len : Nat) (slots : List UInt32) (slot : UInt32) :
    ((zeros len).occupyAll slots).isOccupied slot = true ↔ slot.toNat < 8 * len ∧ slot ∈ slots := by
  have hlength : (zeros len).bytes.length = len := List.length_replicate
  rw [isOccupied_occupyAll, isOccupied_zeros, Reaches.lt, hlength, and_comm]
  simp

/-- **A bitmap is a set of slots, and every list made from bitmaps is that of a set.** Let a bitmap
of fewer than `2 ^ 29` bytes have no slot occupied, and occupy some slots one after another. Then a
slot is occupied if it was among them and lies within the bitmap, and just these are listed. The
free slots of a group are the slots below its scale that are not occupied. The difference of two
bitmaps, whichever of them is the longer, lists the slots within both of which they say different
things, and is the same both ways. All these lists are in ascending order. -/
theorem slot_lists :
    (∀ len < 2 ^ 29, ∀ slots : List UInt32,
      let b := (zeros len).occupyAll slots
      (∀ slot, b.isOccupied slot = true ↔ slot.toNat < 8 * len ∧ slot ∈ slots) ∧
      Lists b.occupied fun slot => slot.toNat < 8 * len ∧ slot ∈ slots) ∧
    (∀ (S : Suite) (g : ManagedGroup S), g.scale < 2 ^ 32 →
      Lists g.freeSlots fun slot => slot.toNat < g.scale ∧ g.info.isOccupied slot = false) ∧
    (∀ a b : Bitmap, min a.bytes.length b.bytes.length < 2 ^ 29 →
      (Lists (a.diff b) fun slot => slot.toNat < 8 * min a.bytes.length b.bytes.length ∧
        a.isOccupied slot ≠ b.isOccupied slot) ∧ b.diff a = a.diff b) := by
  refine ⟨fun len hlen slots => ?_, fun S g hscale => ?_, fun a b h => ?_⟩
  · have hoccupied := isOccupied_occupyAll_zeros len slots
    have hlength : ((zeros len).occupyAll slots).bytes.length = len := by
      rw [length_occupyAll]
      exact List.length_replicate
    exact ⟨hoccupied, (lists_occupied (by rwa [hlength])).congr hoccupied⟩
  · exact g.lists_freeSlots hscale
  · exact ⟨lists_diff h, diff_comm b a⟩

/-- Eight bytes with the slots zero and nine occupied, where seventy is out of reach and nine comes
twice; a group of twelve with these slots; and a bitmap of one byte beside it. -/
theorem slot_lists_two_occupied :
    let b := (zeros 8).occupyAll [9, 0, 70, 9]
    let short := (zeros 1).occupyAll [2, 0]
    let info : Snapshot .sample := ⟨0, 2, .new 0 0 ⟨1⟩, b, ⟨0, 0⟩, ⟨1⟩⟩
    let g : ManagedGroup .sample := ⟨info, 12, []⟩
    (Lists b.occupied fun slot => slot.toNat < 8 * 8 ∧ slot ∈ [9, 0, 70, 9]) ∧
      b.occupied = [0, 9] ∧
      (Lists g.freeSlots fun slot => slot.toNat < 12 ∧ g.info.isOccupied slot = false) ∧
      g.freeSlots = [1, 2, 3, 4, 5, 6, 7, 8, 10, 11] ∧
      (Lists (b.diff short) fun slot => slot.toNat < 8 * 1 ∧
        b.isOccupied slot ≠ short.isOccupied slot) ∧
      b.diff short = [2] ∧ short.diff b = b.diff short := by
  intro b short info g
  have hdiff := slot_lists.2.2 b short (by decide)
  exact ⟨(slot_lists.1 8 (by decide) [9, 0, 70, 9]).2, by decide +kernel,
    slot_lists.2.1 .sample g (by decide), by decide +kernel, hdiff.1, by decide +kernel, hdiff.2⟩

end Bitmap

end GroupKey
