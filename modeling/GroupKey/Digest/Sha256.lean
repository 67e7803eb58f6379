import GroupKey.Digest

/-!
# SHA-256

The hash function of FIPS 180-4 on byte strings: the input is padded to whole blocks of
sixty-four bytes, and the eight working words are carried through the blocks.
-/

namespace GroupKey.Sha256

/-- The round constants: the first 32 bits of the fractional parts of the cube roots of the
first sixty-four primes. -/
def roundConstants : Array UInt32 := #[
  0x428a2f98, 0x71374491, 0xb5c0fbcf, 0xe9b5dba5, 0x3956c25b, 0x59f111f1, 0x923f82a4, 0xab1c5ed5,
  0xd807aa98, 0x12835b01, 0x243185be, 0x550c7dc3, 0x72be5d74, 0x80deb1fe, 0x9bdc06a7, 0xc19bf174,
  0xe49b69c1, 0xefbe4786, 0x0fc19dc6, 0x240ca1cc, 0x2de92c6f, 0x4a7484aa, 0x5cb0a9dc, 0x76f988da,
  0x983e5152, 0xa831c66d, 0xb00327c8, 0xbf597fc7, 0xc6e00bf3, 0xd5a79147, 0x06ca6351, 0x14292967,
  0x27b70a85, 0x2e1b2138, 0x4d2c6dfc, 0x53380d13, 0x650a7354, 0x766a0abb, 0x81c2c92e, 0x92722c85,
  0xa2bfe8a1, 0xa81a664b, 0xc24b8b70, 0xc76c51a3, 0xd192e819, 0xd6990624, 0xf40e3585, 0x106aa070,
  0x19a4c116, 0x1e376c08, 0x2748774c, 0x34b0bcb5, 0x391c0cb3, 0x4ed8aa4a, 0x5b9cca4f, 0x682e6ff3,
  0x748f82ee, 0x78a5636f, 0x84c87814, 0x8cc70208, 0x90befffa, 0xa4506ceb, 0xbef9a3f7, 0xc67178f2]

/-- The eight working words. -/
structure Working where
  a : UInt32
  b : UInt32
  c : UInt32
  d : UInt32
  e : UInt32
  f : UInt32
  g : UInt32
  h : UInt32

namespace Working

/-- The words before the first block: the first 32 bits of the fractional parts of the square
roots of the first eight primes. -/
def initial : Working :=
  ⟨0x6a09e667, 0xbb67ae85, 0x3c6ef372, 0xa54ff53a, 0x510e527f, 0x9b05688c, 0x1f83d9ab, 0x5be0cd19⟩

/-- Word-by-word sum. -/
def add (x y : Working) : Working :=
  ⟨x.a + y.a, x.b + y.b, x.c + y.c, x.d + y.d, x.e + y.e, x.f + y.f, x.g + y.g, x.h + y.h⟩

/-- The eight words in order, most significant byte first. -/
def toBytes (w : Working) : Bytes := [w.a, w.b, w.c, w.d, w.e, w.f, w.g, w.h].flatMap Bytes.ofUInt32

end Working

/-- Rotation to the right by `n` places, for `0 < n < 32`. -/
def rotateRight (x n : UInt32) : UInt32 := (x >>> n) ||| (x <<< (32 - n))

/-- One round under the sum `kw` of its constant and its schedule word. -/
def round (w : Working) (kw : UInt32) : Working :=
  let sigma1 := rotateRight w.e 6 ^^^ rotateRight w.e 11 ^^^ rotateRight w.e 25
  let choice := (w.e &&& w.f) ^^^ (~~~w.e &&& w.g)
  let t1 := w.h + sigma1 + choice + kw
  let sigma0 := rotateRight w.a 2 ^^^ rotateRight w.a 13 ^^^ rotateRight w.a 22
  let majority := (w.a &&& w.b) ^^^ (w.a &&& w.c) ^^^ (w.b &&& w.c)
  ⟨t1 + (sigma0 + majority), w.a, w.b, w.c, w.d + t1, w.e, w.f, w.g⟩

/-- Extends sixteen schedule words by `n` more. -/
def extend : (n : Nat) → Array UInt32 → Array UInt32
  | 0, ws => ws
  | n + 1, ws =>
    let at' (back : Nat) : UInt32 := ws.getD (ws.size - back) 0
    let x := at' 15
    let y := at' 2
    let s0 := rotateRight x 7 ^^^ rotateRight x 18 ^^^ (x >>> 3)
    let s1 := rotateRight y 17 ^^^ rotateRight y 19 ^^^ (y >>> 10)
    extend n (ws.push (at' 16 + s0 + at' 7 + s1))

/-- The big-endian words of a block. -/
def words : Bytes → Array UInt32 → Array UInt32
  | b0 :: b1 :: b2 :: b3 :: rest, ws =>
    words rest (ws.push ((b0.toUInt32 <<< 24) ||| (b1.toUInt32 <<< 16) ||| (b2.toUInt32 <<< 8)
      ||| b3.toUInt32))
  | _, ws => ws

/-- Carries the working words through one block of sixty-four bytes. -/
def compress (w : Working) (block : Bytes) : Working :=
  let schedule := extend 48 (words block #[])
  w.add ((List.range 64).foldl
    (fun w i => round w (roundConstants.getD i 0 + schedule.getD i 0)) w)

/-- Carries the working words through `n` blocks. -/
def compressAll : (n : Nat) → Working → Bytes → Working
  | 0, w, _ => w
  | n + 1, w, bytes => compressAll n (compress w (bytes.take 64)) (bytes.drop 64)

/-- The input, a set bit, zeros up to eight bytes short of a block, and the length in bits. -/
def pad (bytes : Bytes) : Bytes :=
  let zeros := (119 - bytes.length % 64) % 64
  bytes ++ 0x80 :: List.replicate zeros 0 ++ Bytes.ofNatBE 8 (8 * bytes.length)

end Sha256

/-- The SHA-256 digest of a byte string. -/
def sha256 (bytes : Bytes) : Digest where
  bytes :=
    let padded := Sha256.pad bytes
    (Sha256.compressAll (padded.length / 64) .initial padded).toBytes
  length_bytes := by simp [Sha256.Working.toBytes]

end GroupKey
