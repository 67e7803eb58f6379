import GroupKey.Time

/-!
# Clocks set by hand

Nodes read the time from a clock that is moved from outside. A bank of clocks has faces; copying a
face gives another face of the same clock, so that moving one moves both.
-/

namespace GroupKey

/-- A clock advanced by hand. -/
structure Clock where
  now : Timestamp
  deriving DecidableEq, Repr

namespace Clock

/-- A clock that shows the epoch. -/
def new : Clock := ⟨.zero⟩

/-- Moves the clock to a given time. -/
def set (_ : Clock) (t : Timestamp) : Clock := ⟨t⟩

/-- Moves the clock by the whole microseconds of `d`, at most one full turn, modulo a full turn. -/
def advance (c : Clock) (d : Duration) : Clock :=
  ⟨⟨c.now.micros + UInt64.ofNat (min d.micros Timestamp.lastMicros)⟩⟩

end Clock

/-- Several clocks and the faces that show them; a face is the position of its clock. -/
structure ClockBank where
  clocks : List Clock
  faces : List Nat
  deriving DecidableEq, Repr

namespace ClockBank

/-- A bank without clocks. -/
def empty : ClockBank := ⟨[], []⟩

/-- Adds a clock and its first face. -/
def start (b : ClockBank) (c : Clock) : ClockBank :=
  ⟨b.clocks ++ [c], b.faces ++ [b.clocks.length]⟩

/-- Adds another face of the clock that `face` shows. -/
def copy (b : ClockBank) (face : Nat) : ClockBank :=
  ⟨b.clocks, b.faces ++ (b.faces[face]?).toList⟩

/-- Changes the clock that `face` shows. -/
def update (b : ClockBank) (face : Nat) (f : Clock → Clock) : ClockBank :=
  match b.faces[face]? with
  | some clock => ⟨b.clocks.modify clock f, b.faces⟩
  | none => b

/-- Sets the clock that `face` shows. -/
def set (b : ClockBank) (face : Nat) (t : Timestamp) : ClockBank := b.update face (·.set t)

/-- Advances the clock that `face` shows. -/
def advance (b : ClockBank) (face : Nat) (d : Duration) : ClockBank := b.update face (·.advance d)

/-- The time a face shows. -/
def now? (b : ClockBank) (face : Nat) : Option Timestamp := do
  let clock ← b.faces[face]?
  let c ← b.clocks[clock]?
  return c.now

/-- The times of all faces, in order. -/
def readings (b : ClockBank) : List Timestamp :=
  b.faces.filterMap fun clock => (b.clocks[clock]?).map (·.now)

end ClockBank

end GroupKey
