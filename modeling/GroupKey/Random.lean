import GroupKey.Bytes

/-!
# Random generators

All randomness of a node comes from one generator: a state that, asked for `n` bytes, gives
`n` bytes and the next state. Words, scalars and bounded draws are readings of such bytes, so
that what is proved for every generator holds for every sequence of bytes.
-/

namespace GroupKey

/-- A source of random bytes with states of type `ρ`. -/
class Generator (ρ : Type) where
  /-- The next `n` bytes and the state after them. -/
  bytes : (n : Nat) → ρ → Bytes × ρ
  /-- A request is always served in full. -/
  length_bytes : ∀ n r, (bytes n r).1.length = n

namespace Generator

variable {ρ : Type} [Generator ρ]

/-- Four bytes read as one number, least significant first. -/
def word32 (r : ρ) : UInt32 × ρ :=
  let (bs, r) := bytes 4 r
  (.ofNat bs.toNatLE, r)

/-- Eight bytes read as one number, least significant first. -/
def word64 (r : ρ) : UInt64 × ρ :=
  let (bs, r) := bytes 8 r
  (.ofNat bs.toNatLE, r)

/-- Sixty-four bytes read as one number, least significant first, modulo `order`. -/
def residue (order : Nat) (order_pos : 0 < order) (r : ρ) : Fin order × ρ :=
  let (bs, r) := bytes 64 r
  (⟨bs.toNatLE % order, Nat.mod_lt _ order_pos⟩, r)

/-- How many words `below` tries at most; each is accepted with a chance above one half. -/
def belowAttempts : Nat := 1024

/-- The number of unused high bits of a positive bound below `2 ^ 64`. -/
def headroom (bound : Nat) : Nat := 63 - bound.log2

/-- Draws words `v` until the low half of `v * bound` is at most `zone`, and gives the high half;
zero when no attempt is left. -/
def belowFrom (bound zone : Nat) : (attempts : Nat) → ρ → Nat × ρ
  | 0, r => (0, r)
  | attempts + 1, r =>
    let (v, r) := word64 r
    let product := v.toNat * bound
    if product % UInt64.size ≤ zone then (product / UInt64.size, r)
    else belowFrom bound zone attempts r

/-- A number below a positive `bound < 2 ^ 64`, each equally likely. -/
def below (bound : Nat) (r : ρ) : Nat × ρ :=
  belowFrom bound ((bound <<< headroom bound) - 1) belowAttempts r

theorem belowFrom_lt {bound : Nat} (h : 0 < bound) (zone attempts : Nat) (r : ρ) :
    (belowFrom bound zone attempts r).1 < bound := by
  induction attempts generalizing r with
  | zero => exact h
  | succ attempts ih =>
    unfold belowFrom
    simp only
    split
    · rw [Nat.div_lt_iff_lt_mul (by decide), Nat.mul_comm bound]
      exact Nat.mul_lt_mul_of_pos_right (UInt64.toNat_lt _) h
    · exact ih _

/-- A draw is below its bound. -/
theorem below_lt {bound : Nat} (h : 0 < bound) (r : ρ) : (below bound r).1 < bound :=
  belowFrom_lt h _ _ r

end Generator

end GroupKey
