import GroupKey.Random
import GroupKey.Time
import GroupKey.Wire.Message
import Std.Data.ExtTreeMap

/-!
# The broadcast medium

Every frame goes to all nodes but its sender. Each delivery is lost with a given probability or
arrives after a fixed time. The medium counts what it does.
-/

namespace GroupKey

/-- A probability in steps of `2 ^ -64`; the last value stands for certainty. -/
structure Chance where
  steps : UInt64
  deriving DecidableEq

namespace Chance

/-- What always happens. -/
def certain : Chance := ⟨UInt64.ofNat (UInt64.size - 1)⟩

/-- The largest chance not above a number from zero to one. -/
def ofFloat (p : Float) : Chance := ⟨(p * 18446744073709551616.0).toUInt64⟩

/-- Whether it happens this time. Certainty takes no draw. -/
def draw {ρ : Type} [Generator ρ] (c : Chance) (r : ρ) : Bool × ρ :=
  if c = certain then (true, r)
  else
    let (v, r) := Generator.word64 r
    (decide (v < c.steps), r)

end Chance

/-- How the medium delivers. -/
structure Link where
  /-- The chance that a delivery is lost. -/
  loss : Chance
  latency : Duration

/-- What the medium has done. -/
structure Traffic where
  framesSent : Nat
  deliveries : Nat
  dropped : Nat
  /-- The frames sent of every kind, by its name. -/
  byKind : Std.ExtTreeMap String Nat

namespace Traffic

/-- Nothing was sent. -/
def zero : Traffic := ⟨0, 0, 0, ∅⟩

/-- The name under which a frame is counted. -/
def kindName (kind : Option MessageKind) : String :=
  match kind with
  | some kind => kind.name
  | none => "Unknown"

/-- Counts a frame. -/
def send (t : Traffic) (kind : Option MessageKind) : Traffic :=
  { t with
    framesSent := t.framesSent + 1
    byKind := t.byKind.alter (kindName kind) fun count => some (count.getD 0 + 1) }

/-- Counts a delivery. -/
def deliver (t : Traffic) : Traffic := { t with deliveries := t.deliveries + 1 }

/-- Counts a loss. -/
def drop (t : Traffic) : Traffic := { t with dropped := t.dropped + 1 }

end Traffic

end GroupKey
