import GroupKey.Bytes

/-!
# Points in time and spans of time

A timestamp counts microseconds since a common epoch in one 64-bit word; a duration
counts nanoseconds without a limit. Adding a duration to a timestamp drops what is below a
microsecond and stops at the last representable time; the time elapsed since a later
timestamp is zero.
-/

namespace GroupKey

/-- A span of time, in nanoseconds. -/
structure Duration where
  nanos : Nat
  deriving DecidableEq, Repr

namespace Duration

/-- A span of whole microseconds. -/
def ofMicros (micros : Nat) : Duration := ⟨micros * 1000⟩

/-- A span of whole milliseconds. -/
def ofMillis (millis : Nat) : Duration := ofMicros (millis * 1000)

/-- The whole microseconds of a span. -/
def micros (d : Duration) : Nat := d.nanos / 1000

/-- A span of no length. -/
def zero : Duration := ⟨0⟩

instance : LE Duration := ⟨fun a b => a.nanos ≤ b.nanos⟩
instance : LT Duration := ⟨fun a b => a.nanos < b.nanos⟩
instance (a b : Duration) : Decidable (a ≤ b) := inferInstanceAs (Decidable (a.nanos ≤ b.nanos))
instance (a b : Duration) : Decidable (a < b) := inferInstanceAs (Decidable (a.nanos < b.nanos))

end Duration

/-- A point in time, in microseconds since the epoch. -/
structure Timestamp where
  micros : UInt64
  deriving DecidableEq, Repr

namespace Timestamp

instance : Inhabited Timestamp := ⟨⟨0⟩⟩
instance : LE Timestamp := ⟨fun a b => a.micros ≤ b.micros⟩
instance : LT Timestamp := ⟨fun a b => a.micros < b.micros⟩
instance (a b : Timestamp) : Decidable (a ≤ b) := inferInstanceAs (Decidable (a.micros ≤ b.micros))
instance (a b : Timestamp) : Decidable (a < b) := inferInstanceAs (Decidable (a.micros < b.micros))
instance : Ord Timestamp := ⟨compareOn Timestamp.micros⟩
instance : Std.TransOrd Timestamp := inferInstanceAs (Std.TransCmp (compareOn Timestamp.micros))

instance : Std.LawfulEqOrd Timestamp where
  eq_of_compare {a b} h := by
    have : a.micros = b.micros := Std.LawfulEqOrd.eq_of_compare h
    cases a; cases b; simp_all

/-- The epoch. -/
def zero : Timestamp := ⟨0⟩

/-- The last microsecond a timestamp can name. -/
def lastMicros : Nat := UInt64.size - 1

/-- A number of microseconds, stopped at the last representable time. -/
def ofNat (micros : Nat) : Timestamp := ⟨UInt64.ofNat (min micros lastMicros)⟩

/-- A number of milliseconds, stopped at the last representable time. -/
def ofMillis (millis : Nat) : Timestamp := ofNat (millis * 1000)

/-- The time `d` after `t`, stopped at the last representable time. -/
def add (t : Timestamp) (d : Duration) : Timestamp := ofNat (t.micros.toNat + d.micros)

instance : HAdd Timestamp Duration Timestamp := ⟨add⟩

theorem le_iff {a b : Timestamp} : a ≤ b ↔ a.micros.toNat ≤ b.micros.toNat :=
  UInt64.le_iff_toNat_le

theorem le_refl (a : Timestamp) : a ≤ a := UInt64.le_refl _

theorem le_trans {a b c : Timestamp} (h : a ≤ b) (h' : b ≤ c) : a ≤ c := UInt64.le_trans h h'

theorem not_lt {a b : Timestamp} : ¬ a < b ↔ b ≤ a := UInt64.not_lt

theorem le_antisymm {a b : Timestamp} (h : a ≤ b) (h' : b ≤ a) : a = b := by
  cases a; cases b
  exact congrArg mk (UInt64.le_antisymm h h')

theorem zero_le (t : Timestamp) : zero ≤ t := le_iff.2 (Nat.zero_le _)

theorem toNat_ofNat (micros : Nat) : (ofNat micros).micros.toNat = min micros lastMicros := by
  have hlast : lastMicros + 1 = UInt64.size := rfl
  exact UInt64.toNat_ofNat_of_lt' (by omega)

theorem le_last (t : Timestamp) : t ≤ ofNat lastMicros := by
  have hlt := t.micros.toNat_lt_size
  have hlast : lastMicros + 1 = UInt64.size := rfl
  rw [le_iff, toNat_ofNat]
  omega

theorem toNat_add (t : Timestamp) (d : Duration) :
    (t + d).micros.toNat = min (t.micros.toNat + d.micros) lastMicros :=
  toNat_ofNat _

theorem add_zero (t : Timestamp) : t + Duration.zero = t := by
  have hlast : lastMicros + 1 = UInt64.size := rfl
  have hlt := t.micros.toNat_lt_size
  have hzero : Duration.zero.micros = 0 := rfl
  have hmicros : (t + Duration.zero).micros.toNat = t.micros.toNat := by
    rw [toNat_add, hzero]
    omega
  obtain ⟨micros⟩ := t
  exact congrArg mk (UInt64.toNat_inj.1 hmicros)

theorem le_add (t : Timestamp) (d : Duration) : t ≤ t + d := by
  have hlast : lastMicros + 1 = UInt64.size := rfl
  have hlt := t.micros.toNat_lt
  have hsize : UInt64.size = 2 ^ 64 := rfl
  rw [le_iff, toNat_add]
  omega

theorem add_le_add {a b : Timestamp} (h : a ≤ b) (d : Duration) : a + d ≤ b + d := by
  rw [le_iff] at h
  rw [le_iff, toNat_add, toNat_add]
  omega

/-- The time elapsed from `earlier` to `t`, zero when `earlier` is the later of the two. -/
def since (t earlier : Timestamp) : Duration :=
  .ofMicros (t.micros.toNat - earlier.micros.toNat)

/-- Seconds, a point, six digits of microseconds and the letter `s`. -/
def render (t : Timestamp) : String :=
  let fraction := toString (t.micros % 1000000)
  toString (t.micros / 1000000) ++ "." ++ "".pushn '0' (6 - fraction.length) ++ fraction ++ "s"

end Timestamp

end GroupKey
