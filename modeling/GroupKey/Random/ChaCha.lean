import GroupKey.Random

/-!
# The ChaCha generator with twelve rounds

The generator hands out the keystream of ChaCha under a 256-bit key, as little-endian words
with a 64-bit block counter from zero and stream number zero. A request takes whole words;
bytes of its last word that were not asked for are lost.
-/

namespace GroupKey

/-- A keystream position: the key words, the number of the next block, and the words of the
current block not yet handed out. -/
structure ChaCha where
  key : List UInt32
  block : Nat
  left : List UInt32

namespace ChaCha

/-- Rotation to the left by `n` places, for `0 < n < 32`. -/
def rotateLeft (x n : UInt32) : UInt32 := (x <<< n) ||| (x >>> (32 - n))

/-- The quarter round on four of the sixteen words. -/
def quarterRound (s : Vector UInt32 16) (i j k l : Fin 16) : Vector UInt32 16 :=
  let a := s[i]
  let b := s[j]
  let c := s[k]
  let d := s[l]
  let a := a + b
  let d := rotateLeft (d ^^^ a) 16
  let c := c + d
  let b := rotateLeft (b ^^^ c) 12
  let a := a + b
  let d := rotateLeft (d ^^^ a) 8
  let c := c + d
  let b := rotateLeft (b ^^^ c) 7
  (((s.set i a).set j b).set k c).set l d

/-- A round on the columns followed by a round on the diagonals. -/
def doubleRound (s : Vector UInt32 16) : Vector UInt32 16 :=
  let s := quarterRound s 0 4 8 12
  let s := quarterRound s 1 5 9 13
  let s := quarterRound s 2 6 10 14
  let s := quarterRound s 3 7 11 15
  let s := quarterRound s 0 5 10 15
  let s := quarterRound s 1 6 11 12
  let s := quarterRound s 2 7 8 13
  quarterRound s 3 4 9 14

/-- The words before the rounds: four constants, the key, the block counter and the stream. -/
def start (key : List UInt32) (block : Nat) : Vector UInt32 16 :=
  let k (i : Nat) : UInt32 := key.getD i 0
  #v[0x61707865, 0x3320646e, 0x79622d32, 0x6b206574, k 0, k 1, k 2, k 3, k 4, k 5, k 6, k 7,
    .ofNat block, .ofNat (block / UInt32.size), 0, 0]

/-- The sixteen keystream words of a block. -/
def blockWords (key : List UInt32) (block : Nat) : List UInt32 :=
  let s := start key block
  (Vector.zipWith (· + ·) (Nat.repeat doubleRound 6 s) s).toList

/-- The next word of the keystream. -/
def next (g : ChaCha) : UInt32 × ChaCha :=
  match g.left with
  | w :: left => (w, { g with left })
  | [] =>
    let ws := blockWords g.key g.block
    (ws.headD 0, { g with block := g.block + 1, left := ws.tail })

/-- The next `n` words of the keystream, in front of which stand those drawn before, last first. -/
def words : (n : Nat) → List UInt32 → ChaCha → List UInt32 × ChaCha
  | 0, drawn, g => (drawn.reverse, g)
  | n + 1, drawn, g =>
    let (w, g) := g.next
    words n (w :: drawn) g

theorem length_words (n : Nat) (drawn : List UInt32) (g : ChaCha) :
    (words n drawn g).1.length = drawn.length + n := by
  induction n generalizing drawn g with
  | zero => simp [words]
  | succ n ih => simp [words, ih]; omega

/-- The next `n` bytes of the keystream, taken in whole words. -/
def bytes (n : Nat) (g : ChaCha) : Bytes × ChaCha :=
  let (ws, g) := words ((n + 3) / 4) [] g
  ((ws.flatMap fun w => Bytes.ofNatLE 4 w.toNat).take n, g)

theorem length_bytes (n : Nat) (g : ChaCha) : (g.bytes n).1.length = n := by
  have length_flatMap (ws : List UInt32) :
      (ws.flatMap fun w => Bytes.ofNatLE 4 w.toNat).length = 4 * ws.length := by
    induction ws with
    | nil => rfl
    | cons w ws ih => simp [ih]; omega
  simp only [bytes, List.length_take, length_flatMap, length_words]
  simp only [List.length_nil]
  omega

instance : Generator ChaCha := ⟨bytes, length_bytes⟩

/-- The generator with the given thirty-two key bytes. -/
def ofKey (key : Bytes) : ChaCha where
  key := (List.range 8).map fun i => .ofNat (Bytes.toNatLE ((key.drop (4 * i)).take 4))
  block := 0
  left := []

/-- Key words from a small seed: each is a rotated mix of the high bits of the next state of a
linear congruential generator. -/
def expandSeed : (n : Nat) → UInt64 → List UInt32
  | 0, _ => []
  | n + 1, state =>
    let state := state * 6364136223846793005 + 11634580027462260723
    let mixed := (((state >>> 18) ^^^ state) >>> 27).toUInt32
    let turn := (state >>> 59).toUInt32
    let word := if turn = 0 then mixed else (mixed >>> turn) ||| (mixed <<< (32 - turn))
    word :: expandSeed n state

/-- The generator whose key is expanded from a 64-bit seed. -/
def ofSeed (seed : UInt64) : ChaCha := ⟨expandSeed 8 seed, 0, []⟩

end ChaCha

end GroupKey
