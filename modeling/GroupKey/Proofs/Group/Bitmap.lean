import GroupKey.Group.Snapshot
import Mathlib.Data.List.Induction

/-!
# Slot bitmaps as sets of slots

A bitmap of `n` bytes stands for a set of slots below `8 * n`. Occupying a slot within the bitmap
adds it to the set and changes nothing else; the order in which slots are occupied leaves no trace.

* `Lists` — the slots with a property, in ascending order.
* `lists_slotsBelow` — the slots below a bound, sifted.
* `isOccupied_occupy` — what a bitmap says after a slot was occupied.
* `occupy_comm` — two slots may be occupied in either order.
* `occupyAll` — the bitmap of a list of slots.
* `mem_diff`, `ne_of_mem_diff` — slots of which two bitmaps say different things.
-/

namespace GroupKey

/-! ## Lists of slots -/

/-- The list holds the slots with a property, each once and in ascending order. -/
structure Lists (slots : List UInt32) (P : UInt32 → Prop) : Prop where
  sorted : slots.Pairwise (· < ·)
  mem_iff : ∀ slot, slot ∈ slots ↔ P slot

theorem Lists.congr {slots : List UInt32} {P Q : UInt32 → Prop} (h : Lists slots P)
    (hiff : ∀ slot, P slot ↔ Q slot) : Lists slots Q :=
  ⟨h.sorted, fun slot => (h.mem_iff slot).trans (hiff slot)⟩

theorem Lists.eq_nil_iff {slots : List UInt32} {P : UInt32 → Prop} (h : Lists slots P) :
    slots = [] ↔ ∀ slot, ¬P slot := by
  rw [List.eq_nil_iff_forall_not_mem]
  exact forall_congr' fun slot => not_congr (h.mem_iff slot)

theorem Lists.of_head? {slots : List UInt32} {P : UInt32 → Prop} (h : Lists slots P)
    {slot : UInt32} (hhead : slots.head? = some slot) : P slot ∧ ∀ other < slot, ¬P other := by
  obtain ⟨rest, rfl⟩ := List.head?_eq_some_iff.1 hhead
  refine ⟨(h.mem_iff slot).1 List.mem_cons_self, fun other hlt hother => ?_⟩
  rcases List.mem_cons.1 ((h.mem_iff other).2 hother) with rfl | hmem
  · exact UInt32.lt_irrefl _ hlt
  · exact UInt32.lt_asymm hlt ((List.pairwise_cons.1 h.sorted).1 other hmem)

namespace Bitmap

/-! ## Slots below a bound -/

theorem lists_slotsBelow {count : Nat} (hcount : count < UInt32.size) (keep : UInt32 → Bool) :
    Lists ((slotsBelow count).filter keep) fun slot =>
      slot.toNat < count ∧ keep slot = true := by
  have hsize : (UInt32.ofNat count).toNat = count := UInt32.toNat_ofNat_of_lt' hcount
  have htoNat : ∀ i < count, (UInt32.ofNat i).toNat = i := fun i hi =>
    UInt32.toNat_ofNat_of_lt' (Nat.lt_trans hi hcount)
  rw [slotsBelow, hsize]
  refine ⟨(List.pairwise_map.2 (List.pairwise_lt_range.imp_of_mem ?_)).filter _, fun slot => ?_⟩
  · intro i j hi hj hlt
    rw [UInt32.lt_iff_toNat_lt, htoNat i (List.mem_range.1 hi), htoNat j (List.mem_range.1 hj)]
    exact hlt
  · rw [List.mem_filter, List.mem_map]
    refine and_congr_left fun _ => ⟨?_, fun hlt => ?_⟩
    · rintro ⟨i, hi, rfl⟩
      have hlt := List.mem_range.1 hi
      rwa [htoNat i hlt]
    · exact ⟨slot.toNat, List.mem_range.2 hlt, UInt32.ofNat_toNat⟩

/-! ## Bits of a byte -/

theorem or_and_distrib (x y z : UInt8) : (x ||| y) &&& z = x &&& z ||| y &&& z := by
  apply UInt8.toBitVec_inj.1
  ext i hi
  simp [Bool.and_or_distrib_right]

theorem and_mask_ne_zero_iff (byte : UInt8) (a b : Fin 8) :
    (byte ||| 0x80 >>> UInt8.ofNat a) &&& 0x80 >>> UInt8.ofNat b ≠ 0 ↔
      a = b ∨ byte &&& 0x80 >>> UInt8.ofNat b ≠ 0 := by
  have h : ∀ a b : Fin 8,
      0x80 >>> UInt8.ofNat a &&& 0x80 >>> UInt8.ofNat b = (0 : UInt8) ↔ a ≠ b := by
    decide
  rw [or_and_distrib, Ne, UInt8.or_eq_zero_iff, h, not_and_or, not_not, or_comm]

theorem slot_eq_of_div_mod {a b : UInt32} (hd : a.toNat / 8 = b.toNat / 8)
    (hm : a.toNat % 8 = b.toNat % 8) : a = b := by
  apply UInt32.toNat_inj.1
  omega

theorem or_mask_and_mask (byte : UInt8) {a b : UInt32} (h : a.toNat / 8 = b.toNat / 8) :
    (byte ||| mask a) &&& mask b ≠ 0 ↔ a = b ∨ byte &&& mask b ≠ 0 := by
  have key := and_mask_ne_zero_iff byte ⟨a.toNat % 8, by omega⟩ ⟨b.toNat % 8, by omega⟩
  simp only [Fin.mk.injEq] at key
  rw [mask, mask, key]
  refine or_congr ⟨fun hm => slot_eq_of_div_mod h hm, fun hab => by rw [hab]⟩ Iff.rfl

/-- The bit of a slot is counted from the most significant one. -/
theorem and_mask_eq_testBit (byte : UInt8) (slot : UInt32) :
    (byte &&& mask slot != 0) = byte.toNat.testBit (7 - slot.toNat % 8) := by
  have h : ∀ (byte : Fin 256) (bit : Fin 8),
      (UInt8.ofNat byte &&& 0x80 >>> UInt8.ofNat bit != 0) = byte.val.testBit (7 - bit) := by
    decide +kernel
  have hbit := h ⟨byte.toNat, byte.toNat_lt⟩ ⟨slot.toNat % 8, Nat.mod_lt _ (by decide)⟩
  rwa [UInt8.ofNat_toNat] at hbit

/-! ## Occupying a slot -/

/-- Whether a slot lies within the bitmap. -/
def Reaches (b : Bitmap) (slot : UInt32) : Prop := slot.toNat / 8 < b.bytes.length

@[simp] theorem length_occupy (b : Bitmap) (slot : UInt32) :
    (b.occupy slot).bytes.length = b.bytes.length := by
  simp [occupy]

@[simp] theorem reaches_occupy (b : Bitmap) (a slot : UInt32) :
    (b.occupy a).Reaches slot ↔ b.Reaches slot := by
  simp [Reaches]

theorem isOccupied_iff (b : Bitmap) (slot : UInt32) :
    b.isOccupied slot = true ↔
      ∃ byte, b.bytes[slot.toNat / 8]? = some byte ∧ byte &&& mask slot ≠ 0 := by
  unfold isOccupied
  cases b.bytes[slot.toNat / 8]? <;> simp

/-- **What a bitmap says after a slot was occupied.** -/
theorem isOccupied_occupy (b : Bitmap) (a slot : UInt32) :
    (b.occupy a).isOccupied slot = true ↔
      (a = slot ∧ b.Reaches slot) ∨ b.isOccupied slot = true := by
  rw [isOccupied_iff, isOccupied_iff]
  simp only [occupy, List.getElem?_modify]
  by_cases hd : a.toNat / 8 = slot.toNat / 8
  · by_cases hr : b.Reaches slot
    · have hget := List.getElem?_eq_getElem hr
      simp [hd, hget, hr, or_mask_and_mask _ hd]
    · have hget := List.getElem?_eq_none (Nat.le_of_not_lt hr)
      simp [hd, hget, hr]
  · have hne : a ≠ slot := fun h => hd (by rw [h])
    simp [hd, hne]

theorem occupy_comm (b : Bitmap) (a c : UInt32) :
    (b.occupy a).occupy c = (b.occupy c).occupy a := by
  unfold occupy
  congr 1
  apply List.ext_getElem?
  intro i
  simp only [List.getElem?_modify]
  cases b.bytes[i]? with
  | none => rfl
  | some byte =>
    by_cases ha : a.toNat / 8 = i <;> by_cases hc : c.toNat / 8 = i <;> simp [ha, hc]
    rw [UInt8.or_assoc, UInt8.or_comm (mask a), ← UInt8.or_assoc]

/-! ## A list of slots -/

/-- The bitmap with all the listed slots occupied. -/
def occupyAll (b : Bitmap) (slots : List UInt32) : Bitmap := slots.foldl occupy b

@[simp] theorem occupyAll_nil (b : Bitmap) : b.occupyAll [] = b := rfl

@[simp] theorem occupyAll_concat (b : Bitmap) (slots : List UInt32) (slot : UInt32) :
    b.occupyAll (slots ++ [slot]) = (b.occupyAll slots).occupy slot := by
  simp [occupyAll]

@[simp] theorem length_occupyAll (b : Bitmap) (slots : List UInt32) :
    (b.occupyAll slots).bytes.length = b.bytes.length := by
  induction slots using List.reverseRecOn with
  | nil => rfl
  | append_singleton slots slot ih => rw [occupyAll_concat, length_occupy, ih]

theorem occupyAll_perm (b : Bitmap) {slots slots' : List UInt32} (h : slots.Perm slots') :
    b.occupyAll slots = b.occupyAll slots' :=
  h.foldl_eq' (fun x _ y _ z => occupy_comm z x y) b

theorem isOccupied_occupyAll (b : Bitmap) (slots : List UInt32) (slot : UInt32) :
    (b.occupyAll slots).isOccupied slot = true ↔
      (slot ∈ slots ∧ b.Reaches slot) ∨ b.isOccupied slot = true := by
  induction slots using List.reverseRecOn with
  | nil => simp
  | append_singleton slots a ih =>
    have hr : (b.occupyAll slots).Reaches slot ↔ b.Reaches slot := by simp [Reaches]
    rw [occupyAll_concat, isOccupied_occupy, ih, hr, List.mem_append, List.mem_singleton]
    constructor
    · rintro (⟨rfl, h⟩ | ⟨h, h'⟩ | h)
      · exact Or.inl ⟨Or.inr rfl, h⟩
      · exact Or.inl ⟨Or.inl h, h'⟩
      · exact Or.inr h
    · rintro (⟨h | rfl, h'⟩ | h)
      · exact Or.inr (Or.inl ⟨h, h'⟩)
      · exact Or.inl ⟨rfl, h'⟩
      · exact Or.inr (Or.inr h)

/-! ## The empty bitmap -/

/-- A bitmap of so many bytes with no slot occupied. -/
def zeros (len : Nat) : Bitmap := ⟨List.replicate len 0⟩

theorem isOccupied_zeros (len : Nat) (slot : UInt32) : (zeros len).isOccupied slot = false := by
  unfold isOccupied zeros
  cases h : (List.replicate len (0 : UInt8))[slot.toNat / 8]? with
  | none => rfl
  | some byte =>
    have hzero : byte = 0 := (List.mem_replicate.1 (List.mem_of_getElem? h)).2
    simp [hzero]

@[simp] theorem length_free (scale : Nat) : (free scale).bytes.length = byteCount scale := by
  simp [free]

@[simp] theorem isOccupied_free (scale : Nat) (slot : UInt32) :
    (free scale).isOccupied slot = false :=
  isOccupied_zeros _ slot

theorem reaches_of_lt {b : Bitmap} {scale : Nat} {slot : UInt32}
    (hb : b.bytes.length = byteCount scale) (h : slot.toNat < scale) : b.Reaches slot := by
  rw [Reaches, hb, byteCount]
  omega

/-! ## Differences -/

theorem xor_and_distrib (x y z : UInt8) : (x ^^^ y) &&& z = x &&& z ^^^ y &&& z := by
  apply UInt8.toBitVec_inj.1
  ext i hi
  simp [Bool.and_xor_distrib_right]

theorem mem_diff {a b : Bitmap} {slot : UInt32} (ha : a.Reaches slot) (hb : b.Reaches slot)
    (hne : a.isOccupied slot ≠ b.isOccupied slot) : slot ∈ a.diff b := by
  obtain ⟨x, hx⟩ : ∃ x, a.bytes[slot.toNat / 8]? = some x := ⟨_, List.getElem?_eq_getElem ha⟩
  obtain ⟨y, hy⟩ : ∃ y, b.bytes[slot.toNat / 8]? = some y := ⟨_, List.getElem?_eq_getElem hb⟩
  have hbyte : (x ^^^ y, slot.toNat / 8) ∈
      (List.zipWith (· ^^^ ·) a.bytes b.bytes).zipIdx := by
    rw [List.mk_mem_zipIdx_iff_getElem?, List.getElem?_zipWith, hx, hy]
  have hbit : (x ^^^ y) &&& mask slot ≠ 0 := by
    rw [xor_and_distrib, Ne, UInt8.xor_eq_zero_iff]
    intro heq
    rw [isOccupied, isOccupied, hx, hy] at hne
    exact hne (congrArg (· != 0) heq)
  refine List.mem_flatMap.2 ⟨_, hbyte, List.mem_map.2 ⟨slot.toNat % 8, ?_, ?_⟩⟩
  · exact List.mem_filter.2 ⟨List.mem_range.2 (Nat.mod_lt _ (by decide)), bne_iff_ne.2 hbit⟩
  · rw [Nat.mul_comm, Nat.div_add_mod, UInt32.ofNat_toNat]

/-- Two bitmaps say different things of every slot in their difference, if positions fit slots. -/
theorem ne_of_mem_diff {a b : Bitmap} {slot : UInt32} (ha : a.bytes.length * 8 ≤ UInt32.size)
    (h : slot ∈ a.diff b) : a.isOccupied slot ≠ b.isOccupied slot := by
  obtain ⟨⟨bits, i⟩, hbyte, hslot⟩ := List.mem_flatMap.1 h
  obtain ⟨bit, hbit, rfl⟩ := List.mem_map.1 hslot
  obtain ⟨hrange, hset⟩ := List.mem_filter.1 hbit
  have hrange := List.mem_range.1 hrange
  rw [List.mk_mem_zipIdx_iff_getElem?, List.getElem?_zipWith] at hbyte
  cases hx : a.bytes[i]? with
  | none => simp [hx] at hbyte
  | some x =>
    cases hy : b.bytes[i]? with
    | none => simp [hx, hy] at hbyte
    | some y =>
      rw [hx, hy] at hbyte
      obtain rfl : x ^^^ y = bits := Option.some.inj hbyte
      have hi : i < a.bytes.length := (List.getElem?_eq_some_iff.1 hx).1
      have htoNat : (UInt32.ofNat (i * 8 + bit)).toNat = i * 8 + bit :=
        UInt32.toNat_ofNat_of_lt' (by omega)
      have hdiv : (UInt32.ofNat (i * 8 + bit)).toNat / 8 = i := by omega
      have hmask : 0x80 >>> UInt8.ofNat bit = mask (.ofNat (i * 8 + bit)) := by
        rw [mask, show (UInt32.ofNat (i * 8 + bit)).toNat % 8 = bit by omega]
      rw [hmask, and_mask_eq_testBit, UInt8.toNat_xor, Nat.testBit_xor] at hset
      simp only [isOccupied, hdiv, hx, hy, and_mask_eq_testBit]
      intro heq
      rw [heq, Bool.xor_self] at hset
      exact Bool.false_ne_true hset

end Bitmap

end GroupKey
