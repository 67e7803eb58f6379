/-!
# Reading decimal numbers

Decimal texts of floating-point numbers, rounded to the nearest number: digits with or without a
point and an exponent, behind an optional sign, or the words for infinity and for no number.
-/

namespace GroupKey.Decimal

/-- Splits off the leading digits. -/
def splitDigits (cs : List Char) : List Char × List Char :=
  (cs.takeWhile Char.isDigit, cs.dropWhile Char.isDigit)

/-- The number that digits spell. -/
def ofDigits (cs : List Char) : Nat := cs.foldl (fun n c => 10 * n + (c.toNat - '0'.toNat)) 0

/-- The number that digits behind an optional plus sign spell. -/
def nat? (text : String) : Option Nat :=
  let digits := match text.toList with
    | '+' :: cs => cs
    | cs => cs
  if digits.isEmpty || !digits.all Char.isDigit then none else some (ofDigits digits)

/-- The integer that digits behind an optional sign spell. -/
def int? (text : String) : Option Int :=
  match text.toList with
  | '-' :: cs =>
    if cs.isEmpty || !cs.all Char.isDigit then none else some (-(ofDigits cs : Int))
  | _ => (nat? text).map Int.ofNat

/-- An exponent after its letter, or no exponent at the end. -/
def exponent? : List Char → Option Int
  | [] => some 0
  | e :: cs => if e = 'e' ∨ e = 'E' then int? (String.ofList cs) else none

/-- The number `digits * 10 ^ exponent`. Beyond a thousand places the result is zero or infinite
whatever the digits, as far as their number stays below. -/
def scale (digits : Nat) (exponent : Int) : Float :=
  if digits = 0 then 0
  else
    let places := (Nat.toDigits 10 digits).length + exponent
    if 1000 < places then 1 / 0
    else if places < -1000 then 0
    else Float.ofScientific digits (exponent < 0) exponent.natAbs

/-- A number without sign. -/
def unsigned? (cs : List Char) : Option Float :=
  let lower := cs.map Char.toLower
  if lower = ['i', 'n', 'f'] ∨ lower = ['i', 'n', 'f', 'i', 'n', 'i', 't', 'y'] then some (1 / 0)
  else if lower = ['n', 'a', 'n'] then some (0 / 0)
  else
    let (whole, rest) := splitDigits cs
    let (fraction, rest) := match rest with
      | '.' :: rest => splitDigits rest
      | rest => ([], rest)
    if whole.isEmpty && fraction.isEmpty then none
    else do
      let e ← exponent? rest
      return scale (ofDigits (whole ++ fraction)) (e - fraction.length)

/-- The floating-point number that a text spells. -/
def float? (text : String) : Option Float :=
  match text.toList with
  | '-' :: cs => (unsigned? cs).map fun x => -x
  | '+' :: cs => unsigned? cs
  | cs => unsigned? cs

end GroupKey.Decimal
