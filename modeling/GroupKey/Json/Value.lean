/-!
# JSON values

Numbers are kept as they are spelled, objects as lists of their members in order. A string in
the input may hold an escape that stands for no character; such a string has no content, and
whoever needs the content refuses it.
-/

namespace GroupKey

/-- A JSON value. -/
inductive Json where
  | null
  | bool (b : Bool)
  | number (text : String)
  | string (text : Option String)
  | array (items : List Json)
  | object (members : List (Option String × Json))

namespace Json

/-- A string with content. -/
def str (s : String) : Json := string (some s)

/-- A number spelled in decimal digits. -/
def nat (n : Nat) : Json := number (toString n)

/-- An object with the given members. -/
def record (members : List (String × Json)) : Json :=
  object (members.map fun (k, v) => (some k, v))

/-! ## Texts -/

/-- Four lower-case hexadecimal digits. -/
def hex4 (n : Nat) : String :=
  let digits := Nat.toDigits 16 n
  String.ofList (List.replicate (4 - digits.length) '0' ++ digits)

/-- A character inside a string: quotes, backslashes and control characters are escaped. -/
def escape (c : Char) : String :=
  if c = '"' then "\\\""
  else if c = '\\' then "\\\\"
  else if c = '\n' then "\\n"
  else if c = '\r' then "\\r"
  else if c = '\t' then "\\t"
  else if c.toNat = 8 then "\\b"
  else if c.toNat = 12 then "\\f"
  else if c.toNat < 32 then "\\u" ++ hex4 c.toNat
  else c.toString

/-- Adds a quoted string to a text. -/
def writeString (s : Option String) (out : String) : String :=
  ((s.getD "").foldl (fun out c => out ++ escape c) (out.push '"')).push '"'

mutual

/-- Adds the text of a value, without blanks, to a text. -/
def write : Json → String → String
  | null, out => out ++ "null"
  | bool b, out => out ++ if b then "true" else "false"
  | number text, out => out ++ text
  | string s, out => writeString s out
  | array items, out => (writeItems items true (out.push '[')).push ']'
  | object members, out => (writeMembers members true (out.push '\x7b')).push '\x7d'

/-- Adds the texts of array items, with commas between. -/
def writeItems : List Json → (first : Bool) → String → String
  | [], _, out => out
  | v :: vs, first, out => writeItems vs false (write v (if first then out else out.push ','))

/-- Adds the texts of object members, with commas between. -/
def writeMembers : List (Option String × Json) → (first : Bool) → String → String
  | [], _, out => out
  | (k, v) :: ms, first, out =>
    writeMembers ms false
      (write v ((writeString k (if first then out else out.push ',')).push ':'))

end

/-- The text of a value without blanks. -/
def render (v : Json) : String := write v ""

/-- A line break and two blanks per level. -/
def newline (level : Nat) : String := "\n".pushn ' ' (2 * level)

mutual

/-- Adds the text of a value, one item or member a line, to a text. -/
def writePretty : Json → (level : Nat) → String → String
  | array [], _, out => out ++ "[]"
  | object [], _, out => out ++ "\x7b\x7d"
  | array (v :: vs), level, out =>
    let out := writePretty v (level + 1) (out.push '[' ++ newline (level + 1))
    (writePrettyItems vs level out ++ newline level).push ']'
  | object ((k, v) :: ms), level, out =>
    let out := writeString k (out.push '\x7b' ++ newline (level + 1)) ++ ": "
    let out := writePretty v (level + 1) out
    (writePrettyMembers ms level out ++ newline level).push '\x7d'
  | v, _, out => write v out

/-- Adds further array items, each after a comma and a line break. -/
def writePrettyItems : List Json → (level : Nat) → String → String
  | [], _, out => out
  | v :: vs, level, out =>
    writePrettyItems vs level (writePretty v (level + 1) (out.push ',' ++ newline (level + 1)))

/-- Adds further object members, each after a comma and a line break. -/
def writePrettyMembers : List (Option String × Json) → (level : Nat) → String → String
  | [], _, out => out
  | (k, v) :: ms, level, out =>
    let out := writeString k (out.push ',' ++ newline (level + 1)) ++ ": "
    writePrettyMembers ms level (writePretty v (level + 1) out)

end

/-- The text of a value with one item or member a line. -/
def renderPretty (v : Json) : String := writePretty v 0 ""

end Json

end GroupKey
