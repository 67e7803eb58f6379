import GroupKey.Bytes
import GroupKey.Json.Value

/-!
# Reading JSON

A text is cut into tokens, and the tokens are read by a machine that keeps the open arrays and
objects on a stack, so that the depth of nesting does not matter. Anything that is not exactly
one value, with blanks around tokens, is refused.
-/

namespace GroupKey.Json

/-- The tokens of a JSON text. -/
inductive Token where
  | beginArray
  | endArray
  | beginObject
  | endObject
  | comma
  | colon
  /-- A value without parts. -/
  | scalar (v : Json)

namespace Token

/-! ## Strings -/

/-- The content of a string read so far, last character first; none once an escape stood for no
character. The second part is the first half of a surrogate pair that waits for the other. -/
structure Content where
  chars : Option (List Char)
  pending : Option Nat

namespace Content

/-- No content yet. -/
def empty : Content := ⟨some [], none⟩

/-- Adds a character; a waiting half of a pair then stands for no character. -/
def push (s : Content) (c : Char) : Content :=
  if s.pending.isSome then ⟨none, none⟩ else ⟨s.chars.map (c :: ·), none⟩

/-- Adds a unit of sixteen bits, which may be one half of a surrogate pair. -/
def pushUnit (s : Content) (unit : Nat) : Content :=
  if 0xD800 ≤ unit ∧ unit < 0xDC00 then
    if s.pending.isSome then ⟨none, none⟩ else ⟨s.chars, some unit⟩
  else if 0xDC00 ≤ unit ∧ unit < 0xE000 then
    match s.pending with
    | some high =>
      let code := 0x10000 + (high - 0xD800) * 0x400 + (unit - 0xDC00)
      ⟨s.chars.map (Char.ofNat code :: ·), none⟩
    | none => ⟨none, none⟩
  else s.push (Char.ofNat unit)

/-- The content when the string ends. -/
def finish (s : Content) : Option String :=
  if s.pending.isSome then none else s.chars.map fun cs => String.ofList cs.reverse

end Content

/-- The character that a one-letter escape stands for. -/
def escaped? (c : Char) : Option Char :=
  if c = '"' ∨ c = '\\' ∨ c = '/' then some c
  else if c = 'b' then some (Char.ofNat 8)
  else if c = 'f' then some (Char.ofNat 12)
  else if c = 'n' then some '\n'
  else if c = 'r' then some '\r'
  else if c = 't' then some '\t'
  else none

/-- The number that four hexadecimal digits spell. -/
def unit? (a b c d : Char) : Option Nat := do
  let a ← Bytes.hexValue? a
  let b ← Bytes.hexValue? b
  let c ← Bytes.hexValue? c
  let d ← Bytes.hexValue? d
  return ((a * 16 + b) * 16 + c) * 16 + d

/-- Reads a string up to its closing quote, and gives what follows. -/
def string? : List Char → Content → Option (Option String × List Char)
  | [], _ => none
  | '"' :: rest, s => some (s.finish, rest)
  | '\\' :: 'u' :: a :: b :: c :: d :: rest, s =>
    match unit? a b c d with
    | some unit => string? rest (s.pushUnit unit)
    | none => none
  | '\\' :: c :: rest, s =>
    match escaped? c with
    | some c => string? rest (s.push c)
    | none => none
  | c :: rest, s => if c.toNat < 32 ∨ c = '\\' then none else string? rest (s.push c)

/-! ## Numbers -/

/-- What may follow the digits of a fraction, or stand in its place: nothing or an exponent. -/
def isExponent : List Char → Bool
  | [] => true
  | e :: rest =>
    let digits := match rest with
      | sign :: digits => if sign = '+' ∨ sign = '-' then digits else rest
      | [] => []
    (e = 'e' || e = 'E') && !digits.isEmpty && digits.all Char.isDigit

/-- What may follow the digits before the point. -/
def isFraction : List Char → Bool
  | '.' :: rest =>
    !(rest.takeWhile Char.isDigit).isEmpty && isExponent (rest.dropWhile Char.isDigit)
  | rest => isExponent rest

/-- Whether characters spell a number without its sign: no zero stands before another digit. -/
def isUnsigned : List Char → Bool
  | '0' :: rest => isFraction rest
  | d :: rest => d.isDigit && isFraction (rest.dropWhile Char.isDigit)
  | [] => false

/-- Whether characters spell a number. -/
def isNumber : List Char → Bool
  | '-' :: rest => isUnsigned rest
  | cs => isUnsigned cs

/-- The characters that numbers are made of. -/
def isNumberChar (c : Char) : Bool :=
  c.isDigit || c = '-' || c = '+' || c = '.' || c = 'e' || c = 'E'

/-! ## Tokens -/

/-- The token of one character. -/
def punctuation? (c : Char) : Option Token :=
  if c = '[' then some beginArray
  else if c = ']' then some endArray
  else if c = '\x7b' then some beginObject
  else if c = '\x7d' then some endObject
  else if c = ',' then some comma
  else if c = ':' then some colon
  else none

/-- The value that a word stands for. -/
def word? (cs : List Char) : Option Json :=
  if cs = ['n', 'u', 'l', 'l'] then some .null
  else if cs = ['t', 'r', 'u', 'e'] then some (.bool true)
  else if cs = ['f', 'a', 'l', 's', 'e'] then some (.bool false)
  else none

/-- Whether a character separates tokens. -/
def isBlank (c : Char) : Bool := c = ' ' || c = '\n' || c = '\t' || c = '\r'

/-- The tokens of a text behind those found before, which are kept last first. Every token takes
at least one character, so that the length of the text is fuel enough. -/
def tokens? : (fuel : Nat) → List Char → (found : List Token) → Option (List Token)
  | _, [], found => some found.reverse
  | 0, _, _ => none
  | fuel + 1, c :: rest, found =>
    if isBlank c then tokens? fuel rest found
    else
      match punctuation? c with
      | some t => tokens? fuel rest (t :: found)
      | none =>
        if c = '"' then
          match string? rest .empty with
          | some (s, rest) => tokens? fuel rest (scalar (.string s) :: found)
          | none => none
        else if c.isDigit || c = '-' then
          let number := c :: rest.takeWhile isNumberChar
          if isNumber number then
            tokens? fuel (rest.dropWhile isNumberChar)
              (scalar (.number (String.ofList number)) :: found)
          else none
        else
          match word? (c :: rest.takeWhile Char.isAlpha) with
          | some v => tokens? fuel (rest.dropWhile Char.isAlpha) (scalar v :: found)
          | none => none

end Token

/-! ## The machine -/

/-- An open array or object with what was read of it, last first. -/
inductive Frame where
  | items (done : List Json)
  | members (done : List (Option String × Json)) (key : Option String)

/-- What the machine waits for. -/
inductive Mode where
  /-- A value; the flag says that an array may end instead. -/
  | value (mayEnd : Bool)
  /-- A key; the flag says that the object may end instead. -/
  | key (mayEnd : Bool)
  /-- The colon after a key. -/
  | colon (key : Option String)
  /-- What comes after a value. -/
  | done (v : Json)

/-- The state of the machine: the members read so far of an object whose next key is awaited are
kept in a frame of their own. -/
structure Machine where
  mode : Mode
  stack : List Frame

namespace Machine

/-- Waits for a single value. -/
def start : Machine := ⟨.value false, []⟩

/-- Reads one token. -/
def step (m : Machine) (t : Token) : Option Machine :=
  match m.mode, t, m.stack with
  | .value _, .scalar v, stack => some ⟨.done v, stack⟩
  | .value _, .beginArray, stack => some ⟨.value true, .items [] :: stack⟩
  | .value _, .beginObject, stack => some ⟨.key true, .members [] none :: stack⟩
  | .value true, .endArray, .items [] :: stack => some ⟨.done (.array []), stack⟩
  | .key _, .scalar (.string k), stack => some ⟨.colon k, stack⟩
  | .key true, .endObject, .members [] _ :: stack => some ⟨.done (.object []), stack⟩
  | .colon k, .colon, .members done _ :: stack => some ⟨.value false, .members done k :: stack⟩
  | .done v, .comma, .items done :: stack => some ⟨.value false, .items (v :: done) :: stack⟩
  | .done v, .comma, .members done k :: stack =>
    some ⟨.key false, .members ((k, v) :: done) none :: stack⟩
  | .done v, .endArray, .items done :: stack => some ⟨.done (.array (v :: done).reverse), stack⟩
  | .done v, .endObject, .members done k :: stack =>
    some ⟨.done (.object ((k, v) :: done).reverse), stack⟩
  | _, _, _ => none

/-- The value that was read, when nothing is open. -/
def result? (m : Machine) : Option Json :=
  match m.mode, m.stack with
  | .done v, [] => some v
  | _, _ => none

end Machine

/-- The value that a text spells. -/
def parse? (text : String) : Option Json := do
  let chars := text.toList
  let tokens ← Token.tokens? chars.length chars []
  let machine ← tokens.foldlM Machine.step .start
  machine.result?

end GroupKey.Json
