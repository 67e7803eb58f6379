/-!
# Decimal texts of binary fractions

A finite 64-bit floating-point number is `m * 2 ^ q`. Its shortest decimal is the one with the
fewest digits among those that lie within half a unit of it, and so read back as the same number;
of two such the nearer. How digits become a text is left to a format.
-/

namespace GroupKey.Decimal

/-- The number `digits * 10 ^ exponent`. -/
structure Digits where
  digits : Nat
  exponent : Int
  deriving DecidableEq, Repr

/-- The number `m * 2 ^ q`, and whether its distance to the next number below is half as large as
to the next above. -/
structure Binary where
  m : Nat
  q : Int
  narrowBelow : Bool
  deriving DecidableEq, Repr

/-- The finite number with the given bits, its sign left aside. -/
def Binary.ofBits (bits : UInt64) : Binary :=
  let fraction := (bits &&& 0xfffffffffffff).toNat
  let exponent := ((bits >>> 52) &&& 0x7ff).toNat
  if exponent = 0 then ⟨fraction, -1074, false⟩
  else ⟨fraction + 0x10000000000000, (exponent : Int) - 1075, fraction = 0 ∧ 1 < exponent⟩

/-- A positive fraction of natural numbers. -/
structure Ratio where
  num : Nat
  den : Nat

/-- The fraction `n * 2 ^ q / 10 ^ k`. -/
def Ratio.scaled (n : Nat) (q k : Int) : Ratio :=
  ⟨n * Nat.pow 2 q.toNat * Nat.pow 10 (-k).toNat, Nat.pow 2 (-q).toNat * Nat.pow 10 k.toNat⟩

/-- The least `k` from `k₀` on, within `fuel` steps, such that `m * 2 ^ q < 10 ^ k`. -/
def magnitudeFrom (b : Binary) : (fuel : Nat) → (k₀ : Int) → Int
  | 0, k => k
  | fuel + 1, k =>
    let r := Ratio.scaled b.m b.q k
    if r.num < r.den then k else magnitudeFrom b fuel (k + 1)

/-- The number of digits before the point; negative by the zeros after it. -/
def magnitude (b : Binary) : Int := magnitudeFrom b 640 (-325)

/-- The nearer of the neighbours on the grid of step `10 ^ k` that lie within half a unit. The ends
of that interval belong to it when `m` is even. -/
def onGrid? (b : Binary) (k : Int) : Option Nat :=
  let value := Ratio.scaled (4 * b.m) (b.q - 2) k
  let low := Ratio.scaled (4 * b.m - if b.narrowBelow then 1 else 2) (b.q - 2) k
  let high := Ratio.scaled (4 * b.m + 2) (b.q - 2) k
  let within (n : Nat) : Bool :=
    if b.m % 2 = 0 then low.num ≤ n * low.den && n * high.den ≤ high.num
    else low.num < n * low.den && n * high.den < high.num
  let below := value.num / value.den
  let above := below + 1
  match within below, within above with
  | true, true =>
    let toBelow := value.num - below * value.den
    let toAbove := above * value.den - value.num
    some (if toBelow < toAbove then below
      else if toAbove < toBelow then above
      else if below % 2 = 0 then below else above)
  | true, false => some below
  | false, true => some above
  | false, false => none

/-- The shortest decimal with at least `count` digits. -/
def shortestFrom (b : Binary) (magnitude : Int) : (fuel count : Nat) → Digits
  | 0, _ => ⟨b.m, b.q⟩
  | fuel + 1, count =>
    let k := magnitude - count
    match onGrid? b k with
    | some n => ⟨n, k⟩
    | none => shortestFrom b magnitude fuel (count + 1)

/-- Takes zeros off the end of the digits. -/
def trimFrom : (fuel : Nat) → Digits → Digits
  | 0, d => d
  | fuel + 1, d =>
    if d.digits ≠ 0 ∧ d.digits % 10 = 0 then trimFrom fuel ⟨d.digits / 10, d.exponent + 1⟩ else d

/-- The shortest decimal that reads back as the number. -/
def shortest (b : Binary) : Digits :=
  if b.m = 0 then ⟨0, 0⟩ else trimFrom 20 (shortestFrom b (magnitude b) 17 1)

/-- How digits become a text. -/
structure Format where
  /-- From how many zeros after the point on an exponent is written. -/
  zerosLimit : Option Nat
  /-- Beyond how many digits before the point an exponent is written. -/
  digitsLimit : Option Nat
  /-- Whether whole numbers end in a point and a zero. -/
  pointZero : Bool

/-- The text of a decimal. -/
def Format.text (f : Format) (d : Digits) : String :=
  let digits := toString d.digits
  let before : Int := digits.length + d.exponent
  if d.digits = 0 then if f.pointZero then "0.0" else "0"
  else if 0 ≤ d.exponent ∧ f.digitsLimit.all (before ≤ ·) then
    digits.pushn '0' d.exponent.toNat ++ if f.pointZero then ".0" else ""
  else if 0 < before ∧ f.digitsLimit.all (before ≤ ·) then
    String.ofList (digits.toList.take before.toNat) ++ "." ++
      String.ofList (digits.toList.drop before.toNat)
  else if before ≤ 0 ∧ f.zerosLimit.all (-before < ·) then
    "0.".pushn '0' (-before).toNat ++ digits
  else
    let rest := String.ofList (digits.toList.drop 1)
    String.ofList (digits.toList.take 1) ++ (if rest.isEmpty then "" else "." ++ rest) ++ "e" ++
      toString (before - 1)

/-- The text of a floating-point number; those that are not finite are given words. -/
def Format.floatText (f : Format) (x : Float) : String :=
  let sign := if x.toBits >>> 63 = 1 then "-" else ""
  if x.isNaN then "NaN"
  else if x.isInf then sign ++ "inf"
  else sign ++ f.text (shortest (.ofBits x.toBits))

end GroupKey.Decimal
