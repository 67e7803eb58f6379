import GroupKey.Proofs.Agreement.Decryption
import GroupKey.Proofs.Suite.Exponents

/-!
# Keystreams

The mask of a message is a hash function in counter mode. Blocks of thirty-two bytes are appended,
each under the next number of four bytes, while bytes are missing; what is too much is cut off. So
every byte of a stream can be told from its place alone, and sender and recipient, who make their
streams apart, make the same one.

* `fill` — a stream as it is made, block after block.
* `fill_eq`, `keystream_eq_fill` — which blocks these are, and that the keystream is what they give.
* `getElem?_keystream` — the byte at a place.
* `keystream_law` — the bytes, prefixes and block numbers of a stream, and masking twice.
-/

namespace GroupKey.Suite

variable {S : Suite}

/-! ## Block after block -/

variable (S) in
@[simp] theorem length_keystreamBlock (seed : Bytes) (counter : UInt32) :
    (S.keystreamBlock seed counter).length = 32 :=
  Digest.length_bytes _

variable (S) in
/-- Appends blocks while there are fewer than `len` bytes, the first of them under the number
`counter`. The numbers wrap. -/
def fill (seed : Bytes) (len : Nat) (counter : UInt32) (out : Bytes) : Bytes :=
  if out.length < len then fill seed len (counter + 1) (out ++ S.keystreamBlock seed counter)
  else out
termination_by len - out.length
decreasing_by
  rw [List.length_append, length_keystreamBlock]
  omega

/-- The numbers, from `counter` on, of as many blocks as `missing` bytes take. -/
def blockNumbers (counter : UInt32) (missing : Nat) : List UInt32 :=
  (List.range ((missing + 31) / 32)).map fun i => counter + .ofNat i

theorem blockNumbers_of_pos (counter : UInt32) {missing : Nat} (h : 0 < missing) :
    blockNumbers counter missing = counter :: blockNumbers (counter + 1) (missing - 32) := by
  have hblocks : (missing + 31) / 32 = (missing - 32 + 31) / 32 + 1 := by omega
  rw [blockNumbers, hblocks, List.range_succ_eq_map, List.map_cons, List.map_map]
  congr 1
  · exact UInt32.add_zero counter
  · refine List.map_congr_left fun i _ => ?_
    show counter + UInt32.ofNat (i + 1) = counter + 1 + UInt32.ofNat i
    rw [UInt32.ofNat_add, UInt32.add_comm (.ofNat i), UInt32.add_assoc]
    rfl

/-- **The blocks that are appended** are those of the next numbers, as many as the missing bytes
take. -/
theorem fill_eq (seed : Bytes) (len : Nat) (counter : UInt32) (out : Bytes) :
    S.fill seed len counter out =
      out ++ (blockNumbers counter (len - out.length)).flatMap (S.keystreamBlock seed) := by
  fun_induction fill S seed len counter out with
  | case1 counter out hlt ih =>
    have hmissing : len - (out ++ S.keystreamBlock seed counter).length =
        len - out.length - 32 := by
      rw [List.length_append, length_keystreamBlock]
      omega
    rw [ih, hmissing, blockNumbers_of_pos counter (Nat.sub_pos_of_lt hlt), List.flatMap_cons,
      List.append_assoc]
  | case2 counter out hge =>
    have hmissing : len - out.length = 0 := by omega
    rw [hmissing]
    exact (List.append_nil out).symm

theorem fill_nil (seed : Bytes) (len : Nat) :
    S.fill seed len 0 [] = (blockNumbers 0 len).flatMap (S.keystreamBlock seed) :=
  fill_eq seed len 0 []

/-- **The keystream is what is left of the blocks** when the bytes beyond its length are cut off. -/
theorem keystream_eq_fill (x : S.GT) (len : Nat) :
    S.keystream x len = (S.fill (S.textT x) len 0 []).take len := by
  simp only [fill_nil, blockNumbers, List.flatMap_map, UInt32.zero_add]
  rfl

/-! ## The byte at a place -/

theorem getElem?_flatMap_keystreamBlock (seed : Bytes) (numbers : List UInt32) (i : Nat) :
    (numbers.flatMap (S.keystreamBlock seed))[i]? =
      (numbers[i / 32]?).bind fun number => (S.keystreamBlock seed number)[i % 32]? := by
  induction numbers generalizing i with
  | nil => rfl
  | cons number numbers ih =>
    have hlength := S.length_keystreamBlock seed number
    rw [List.flatMap_cons]
    by_cases hfirst : i < 32
    · rw [List.getElem?_append_left (by rwa [hlength]), Nat.div_eq_of_lt hfirst,
        Nat.mod_eq_of_lt hfirst]
      rfl
    · have hdiv : i / 32 = (i - 32) / 32 + 1 := by omega
      have hmod : i % 32 = (i - 32) % 32 := by omega
      rw [List.getElem?_append_right (by omega), hlength, ih, hdiv, hmod, List.getElem?_cons_succ]

theorem getElem?_keystream (x : S.GT) {len i : Nat} (h : i < len) :
    (S.keystream x len)[i]? = (S.keystreamBlock (S.textT x) (.ofNat (i / 32)))[i % 32]? := by
  have hblock : i / 32 < (len + 31) / 32 := by omega
  rw [keystream_eq_fill, fill_nil, List.getElem?_take, if_pos h, getElem?_flatMap_keystreamBlock,
    blockNumbers, List.getElem?_map, List.getElem?_range hblock, Option.map_some, Option.bind_some,
    UInt32.zero_add]

theorem keystream_take (x : S.GT) {n m : Nat} (h : n ≤ m) :
    (S.keystream x m).take n = S.keystream x n := by
  refine List.ext_getElem? fun i => ?_
  rw [List.getElem?_take]
  by_cases hi : i < n
  · rw [if_pos hi, getElem?_keystream x hi, getElem?_keystream x (Nat.lt_of_lt_of_le hi h)]
  · have hlength : (S.keystream x n).length ≤ i := by
      rw [length_keystream]
      exact Nat.not_lt.1 hi
    rw [if_neg hi, List.getElem?_eq_none hlength]

theorem nodup_blockNumbers {len : Nat} (h : len ≤ 32 * 2 ^ 32) : (blockNumbers 0 len).Nodup := by
  have hblocks : (len + 31) / 32 ≤ 2 ^ 32 := by omega
  have htoNat : ∀ i < (len + 31) / 32, (0 + UInt32.ofNat i).toNat = i := fun i hi => by
    rw [UInt32.zero_add]
    exact UInt32.toNat_ofNat_of_lt' (Nat.lt_of_lt_of_le hi hblocks)
  refine List.Nodup.map_on (fun i hi j hj heq => ?_) List.nodup_range
  rw [← htoNat i (List.mem_range.1 hi), ← htoNat j (List.mem_range.1 hj), heq]

/-! ## Streams -/

/-- **The law of keystreams.** The stream of an element of the target group has just as many bytes
as are asked for, and each is told by its place: byte `i` is byte `i % 32` of the hash of the
domain, the text of the element and the number `i / 32`. So a shorter stream begins every longer
one. A stream is cut from blocks that are appended one after another, and no number comes twice
among them up to a length of `32 * 2 ^ 32`. Masked twice with the stream of its own length a message
is what it was. -/
theorem keystream_law (S : Suite) (x : S.GT) :
    (∀ len, (S.keystream x len).length = len ∧ ∀ i < len, (S.keystream x len)[i]? =
      (S.hash (keystreamDomain ++ S.textT x ++ Bytes.ofUInt32 (.ofNat (i / 32)))).bytes[i % 32]?) ∧
    (∀ n m, n ≤ m → S.keystream x n <+: S.keystream x m) ∧
    (∀ len, S.keystream x len = (S.fill (S.textT x) len 0 []).take len ∧
      S.fill (S.textT x) len 0 [] =
        (blockNumbers 0 len).flatMap (S.keystreamBlock (S.textT x)) ∧
      (len ≤ 32 * 2 ^ 32 → (blockNumbers 0 len).Nodup)) ∧
    ∀ message : Bytes, Bytes.xor (Bytes.xor message (S.keystream x message.length))
      (S.keystream x message.length) = message := by
  refine ⟨fun len => ⟨length_keystream x len, fun i hi => getElem?_keystream x hi⟩,
    fun n m h => ?_, fun len => ⟨keystream_eq_fill x len, fill_nil _ len, nodup_blockNumbers⟩,
    fun message => ?_⟩
  · rw [← keystream_take x h]
    exact List.take_prefix n _
  · exact Bytes.xor_xor_cancel (Nat.le_of_eq (length_keystream x message.length).symm)

/-- Seventy bytes take three blocks. The last byte of the second is that of its number. -/
theorem keystream_law_seventy :
    let x : Suite.sample.GT := (5 : Fin Curve.groupOrder)
    (Suite.sample.keystream x 70).length = 70 ∧
      (Suite.sample.keystream x 70)[63]? = some 1 ∧
      Suite.sample.keystream x 20 <+: Suite.sample.keystream x 70 ∧
      blockNumbers 0 70 = [0, 1, 2] ∧ (blockNumbers 0 70).Nodup := by
  intro x
  obtain ⟨hbytes, hfirst, hblocks, -⟩ := keystream_law .sample x
  refine ⟨(hbytes 70).1, ?_, hfirst 20 70 (by decide), by decide, (hblocks 70).2.2 (by decide)⟩
  rw [(hbytes 70).2 63 (by decide)]
  decide +kernel

end GroupKey.Suite
