import DeltaCycle.Text.Digits

/-!
# JSON texts

A JSON text as a tree, a printer that writes the compact form, and a reader that
accepts any spacing. Numbers without fraction and exponent are exact; the others
are recognised and forgotten, since no value of this library is one. A string may
be well formed as text and still name half of a surrogate pair: such a string is
read without content.
-/

set_option autoImplicit false

namespace DeltaCycle

/-- A JSON tree. Objects keep their members in order, repeated names included. -/
inductive Json where
  | null
  | bool (b : Bool)
  /-- An integer numeral by its sign and its digits, so that minus zero is kept apart. -/
  | integer (negative : Bool) (magnitude : Nat)
  /-- A numeral with a fraction or an exponent. -/
  | fraction
  /-- A string, without content if an escape in it names half of a surrogate pair. -/
  | string (content : Option String)
  | array (elements : List Json)
  | object (members : List (Option String × Json))
deriving Repr, Inhabited

namespace Json

/-! ## Building -/

/-- The numeral of an integer. -/
def ofInt (n : Int) : Json := .integer (decide (n < 0)) n.natAbs

/-- The numeral of a natural number. -/
def ofNat (n : Nat) : Json := .integer false n

/-- A string with its content. -/
def ofString (s : String) : Json := .string (some s)

/-- An object with the given members. -/
def ofMembers (members : List (String × Json)) : Json :=
  .object (members.map fun (name, value) => (some name, value))

/-! ## Printing -/

/-- The hexadecimal digit of a number below sixteen. -/
def hexDigit (n : Nat) : Char := Nat.digitChar n

/-- A character inside a string: quotes and backslashes are escaped, and so is every
control character, by its short name where it has one. -/
def escaped (c : Char) : List Char :=
  if c = '"' then ['\\', '"']
  else if c = '\\' then ['\\', '\\']
  else if c = '\x08' then ['\\', 'b']
  else if c = '\x0c' then ['\\', 'f']
  else if c = '\n' then ['\\', 'n']
  else if c = '\r' then ['\\', 'r']
  else if c = '\t' then ['\\', 't']
  else if c.toNat < 32 then
    ['\\', 'u', '0', '0', hexDigit (c.toNat / 16), hexDigit (c.toNat % 16)]
  else [c]

/-- A string with its quotes. -/
def quoted (s : String) : List Char := '"' :: (s.toList.flatMap escaped ++ ['"'])

mutual

/-- The compact form of a tree. -/
def chars : Json → List Char
  | null => ['n', 'u', 'l', 'l']
  | bool true => ['t', 'r', 'u', 'e']
  | bool false => ['f', 'a', 'l', 's', 'e']
  | integer negative magnitude =>
      (if negative then ['-'] else []) ++ Nat.toDigits 10 magnitude
  | fraction => ['0', '.', '0']
  | string content => quoted (content.getD "")
  | array elements => '[' :: (elementChars elements ++ [']'])
  | object members => '\x7b' :: (memberChars members ++ ['\x7d'])

/-- Elements with commas between them. -/
def elementChars : List Json → List Char
  | [] => []
  | [element] => chars element
  | element :: rest => chars element ++ ',' :: elementChars rest

/-- Members with commas between them. -/
def memberChars : List (Option String × Json) → List Char
  | [] => []
  | [(name, value)] => quoted (name.getD "") ++ ':' :: chars value
  | (name, value) :: rest =>
      quoted (name.getD "") ++ ':' :: (chars value ++ ',' :: memberChars rest)

end

/-- The compact text of a tree. -/
def text (j : Json) : String := String.ofList j.chars

/-! ## Reading -/

/-- Spaces, tabs and line ends separate tokens. -/
def isBlank (c : Char) : Bool := c == ' ' || c == '\t' || c == '\n' || c == '\r'

/-- The text after its leading blanks. -/
def skipBlanks (cs : List Char) : List Char := cs.dropWhile isBlank

/-- The number that four hexadecimal digits stand for. -/
def hexUnit? (a b c d : Char) : Option Nat := do
  let a ← Text.hexValue? a
  let b ← Text.hexValue? b
  let c ← Text.hexValue? c
  let d ← Text.hexValue? d
  return ((a * 16 + b) * 16 + c) * 16 + d

/-- Reads the content of a string up to its closing quote, as code units: a character
gives its code point, an escape with four digits the unit that it names. -/
def readUnits : List Char → Option (List Nat × List Char)
  | [] => none
  | '"' :: rest => some ([], rest)
  | '\\' :: '"' :: rest => unit '"'.toNat (readUnits rest)
  | '\\' :: '\\' :: rest => unit '\\'.toNat (readUnits rest)
  | '\\' :: '/' :: rest => unit '/'.toNat (readUnits rest)
  | '\\' :: 'b' :: rest => unit 8 (readUnits rest)
  | '\\' :: 'f' :: rest => unit 12 (readUnits rest)
  | '\\' :: 'n' :: rest => unit 10 (readUnits rest)
  | '\\' :: 'r' :: rest => unit 13 (readUnits rest)
  | '\\' :: 't' :: rest => unit 9 (readUnits rest)
  | '\\' :: 'u' :: a :: b :: c :: d :: rest =>
      match hexUnit? a b c d with
      | some n => unit n (readUnits rest)
      | none => none
  | c :: rest =>
      if c = '\\' ∨ c.toNat < 32 then none else unit c.toNat (readUnits rest)
where
  /-- Puts a unit before those that follow it. -/
  unit (n : Nat) : Option (List Nat × List Char) → Option (List Nat × List Char)
    | some (units, rest) => some (n :: units, rest)
    | none => none

/-- Joins surrogate pairs; a half without its partner has no character. -/
def decodeUnits : List Nat → Option (List Char)
  | [] => some []
  | [n] => if 0xD800 ≤ n ∧ n < 0xE000 then none else some [Char.ofNat n]
  | n :: m :: rest =>
      if 0xD800 ≤ n ∧ n < 0xDC00 then
        if 0xDC00 ≤ m ∧ m < 0xE000 then
          (decodeUnits rest).map
            (Char.ofNat (0x10000 + (n - 0xD800) * 0x400 + (m - 0xDC00)) :: ·)
        else
          none
      else if 0xDC00 ≤ n ∧ n < 0xE000 then
        none
      else
        (decodeUnits (m :: rest)).map (Char.ofNat n :: ·)

/-- Reads a string after its opening quote. -/
def readString (cs : List Char) : Option (Option String × List Char) :=
  match readUnits cs with
  | some (units, rest) => some ((decodeUnits units).map String.ofList, rest)
  | none => none

/-- Skips an exponent after its letter: a sign if there is one, then digits. -/
def skipExponent (cs : List Char) : Option (List Char) :=
  let unsignedPart :=
    match cs with
    | '+' :: rest => rest
    | '-' :: rest => rest
    | rest => rest
  if (unsignedPart.takeWhile Text.isDigit).isEmpty then none
  else some (unsignedPart.dropWhile Text.isDigit)

/-- Skips what follows the integer part of a numeral, and tells whether there was
a fraction or an exponent. -/
def skipFraction (cs : List Char) : Option (Bool × List Char) :=
  match cs with
  | '.' :: rest =>
      if (rest.takeWhile Text.isDigit).isEmpty then
        none
      else
        match rest.dropWhile Text.isDigit with
        | 'e' :: rest => (skipExponent rest).map (true, ·)
        | 'E' :: rest => (skipExponent rest).map (true, ·)
        | rest => some (true, rest)
  | 'e' :: rest => (skipExponent rest).map (true, ·)
  | 'E' :: rest => (skipExponent rest).map (true, ·)
  | rest => some (false, rest)

/-- Reads a numeral after its sign: no digit may follow a leading zero. -/
def readNumber (negative : Bool) (cs : List Char) : Option (Json × List Char) :=
  let digits := cs.takeWhile Text.isDigit
  match digits with
  | [] => none
  | '0' :: _ :: _ => none
  | digits =>
      match skipFraction (cs.dropWhile Text.isDigit) with
      | some (true, rest) => some (.fraction, rest)
      | some (false, rest) => some (.integer negative (Text.digitsValue digits), rest)
      | none => none

mutual

/-- Reads one value after its leading blanks. Each nested value costs one unit of
`depth`; the length of the text always suffices. -/
def readValue : Nat → List Char → Option (Json × List Char)
  | 0, _ => none
  | depth + 1, cs =>
      match skipBlanks cs with
      | 'n' :: 'u' :: 'l' :: 'l' :: rest => some (.null, rest)
      | 't' :: 'r' :: 'u' :: 'e' :: rest => some (.bool true, rest)
      | 'f' :: 'a' :: 'l' :: 's' :: 'e' :: rest => some (.bool false, rest)
      | '"' :: rest => (readString rest).map fun (content, rest) => (.string content, rest)
      | '[' :: rest =>
          match skipBlanks rest with
          | ']' :: rest => some (.array [], rest)
          | rest => (readElements depth rest).map fun (elements, rest) => (.array elements, rest)
      | '\x7b' :: rest =>
          match skipBlanks rest with
          | '\x7d' :: rest => some (.object [], rest)
          | rest => (readMembers depth rest).map fun (members, rest) => (.object members, rest)
      | '-' :: rest => readNumber true rest
      | rest => readNumber false rest

/-- Reads the elements of an array up to its closing bracket; there is at least one. -/
def readElements : Nat → List Char → Option (List Json × List Char)
  | 0, _ => none
  | depth + 1, cs =>
      match readValue depth cs with
      | none => none
      | some (element, rest) =>
          match skipBlanks rest with
          | ',' :: rest => (readElements depth rest).map fun (es, rest) => (element :: es, rest)
          | ']' :: rest => some ([element], rest)
          | _ => none

/-- Reads the members of an object up to its closing brace; there is at least one. -/
def readMembers : Nat → List Char → Option (List (Option String × Json) × List Char)
  | 0, _ => none
  | depth + 1, cs =>
      match skipBlanks cs with
      | '"' :: rest =>
          match readString rest with
          | none => none
          | some (name, rest) =>
              match skipBlanks rest with
              | ':' :: rest =>
                  match readValue depth rest with
                  | none => none
                  | some (value, rest) =>
                      match skipBlanks rest with
                      | ',' :: rest =>
                          (readMembers depth rest).map fun (ms, rest) => ((name, value) :: ms, rest)
                      | '\x7d' :: rest => some ([(name, value)], rest)
                      | _ => none
              | _ => none
      | _ => none

end

/-- Reads a text that holds one value and nothing else. -/
def parse? (text : String) : Option Json :=
  let cs := text.toList
  match readValue (cs.length + 1) cs with
  | some (j, rest) => if (skipBlanks rest).isEmpty then some j else none
  | none => none

end Json

end DeltaCycle
