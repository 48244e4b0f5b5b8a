import DeltaCycle.Text.Digits

/-!
# Phrases of TOML

Blanks, comments, strings and keys.

Every reader takes a list of characters and returns what it read with the
characters that follow.
-/

set_option autoImplicit false

namespace DeltaCycle.Toml

/-- A reader of one phrase. -/
abbrev Reader (α : Type) : Type := List Char → Option (α × List Char)

/-- Spaces and tabs. -/
def isSpace (c : Char) : Bool := c == ' ' || c == '\t'

/-- The text after leading spaces and tabs. -/
def skipSpaces (cs : List Char) : List Char := cs.dropWhile isSpace

/-- Characters beyond ASCII, allowed wherever text is. -/
def isWide (c : Char) : Bool := 0x80 ≤ c.toNat

/-- Characters that a comment may hold: all but the control characters other than tab. -/
def isCommentChar (c : Char) : Bool :=
  c == '\t' || (0x20 ≤ c.toNat && c.toNat ≤ 0x7E) || isWide c

/-- The text after a comment, whose mark comes first if there is one. -/
def skipComment : List Char → List Char
  | '#' :: rest => rest.dropWhile isCommentChar
  | rest => rest

/-- The text after a line end. -/
def newline? : List Char → Option (List Char)
  | '\n' :: rest => some rest
  | '\r' :: '\n' :: rest => some rest
  | _ => none

/-- The text after what may close a line: spaces, a comment, and a line end unless the
document ends. -/
def lineEnd? (cs : List Char) : Option (List Char) :=
  match skipComment (skipSpaces cs) with
  | [] => some []
  | rest => newline? rest

/-! ## Characters -/

/-- Characters that stand for themselves between double quotes. -/
def isPlain (c : Char) : Bool :=
  c == '\t' || (0x20 ≤ c.toNat && c.toNat ≤ 0x7E && c != '"' && c != '\\') || isWide c

/-- Characters that stand for themselves between single quotes. -/
def isLiteral (c : Char) : Bool :=
  c == '\t' || (0x20 ≤ c.toNat && c.toNat ≤ 0x7E && c != '\'') || isWide c

/-- The number that a digit stands for in a base up to sixteen. -/
def digitValue? (base : Nat) (c : Char) : Option Nat := (Text.hexValue? c).filter (· < base)

/-- The number that a list of digits stands for. -/
def numeral? (base : Nat) (cs : List Char) : Option Nat :=
  cs.foldlM (fun n c => (digitValue? base c).map (n * base + ·)) 0

/-- The character with the code point that `count` hexadecimal digits name. -/
def codePoint? (count : Nat) : Reader Char := fun cs =>
  let digits := cs.take count
  if digits.length = count then do
    let n ← numeral? 16 digits
    if n < 0xD800 ∨ (0xDFFF < n ∧ n < 0x110000) then some (Char.ofNat n, cs.drop count) else none
  else
    none

/-- The character that an escape names, after its backslash. -/
def escape? : Reader Char
  | 'b' :: rest => some ('\x08', rest)
  | 't' :: rest => some ('\t', rest)
  | 'n' :: rest => some ('\n', rest)
  | 'f' :: rest => some ('\x0c', rest)
  | 'r' :: rest => some ('\r', rest)
  | '"' :: rest => some ('"', rest)
  | '\\' :: rest => some ('\\', rest)
  | 'u' :: rest => codePoint? 4 rest
  | 'U' :: rest => codePoint? 8 rest
  | _ => none

/-- The text after a line break that a backslash hides, with all blanks that follow. -/
def hiddenBreak? (cs : List Char) : Option (List Char) :=
  (newline? (skipSpaces cs)).map skipBlankLines
where
  /-- The text after spaces, tabs and line ends. -/
  skipBlankLines : List Char → List Char
    | '\r' :: '\n' :: rest => skipBlankLines rest
    | c :: rest => if isSpace c || c == '\n' then skipBlankLines rest else c :: rest
    | [] => []

/-! ## Strings -/

/-- Reads a string between double quotes, after the opening one. The number bounds
the characters read; the length of the text suffices. -/
def readBasic : Nat → Reader (List Char)
  | 0, _ => none
  | bound + 1, cs =>
      match cs with
      | '"' :: rest => some ([], rest)
      | '\\' :: rest => do
          let (c, rest) ← escape? rest
          let (content, rest) ← readBasic bound rest
          return (c :: content, rest)
      | c :: rest =>
          if isPlain c then (readBasic bound rest).map fun (content, rest) => (c :: content, rest)
          else none
      | [] => none

/-- Reads a string between single quotes, after the opening one. -/
def readLiteral : Reader (List Char)
  | '\'' :: rest => some ([], rest)
  | c :: rest =>
      if isLiteral c then (readLiteral rest).map fun (content, rest) => (c :: content, rest)
      else none
  | [] => none

/-- What a run of quotes inside a string of several lines means: up to two belong to
the content, three close the string, and two more before them belong to the content. -/
def closing? (quote : Char) (cs : List Char) : Option (List Char × List Char) :=
  let run := (cs.takeWhile (· == quote)).length
  if run < 3 then none
  else
    let inside := Nat.min (run - 3) 2
    some (List.replicate inside quote, cs.drop (inside + 3))

/-- Reads a string of several lines between tripled double quotes, after the opening
ones. The number bounds the characters read. -/
def readLongBasic : Nat → Reader (List Char)
  | 0, _ => none
  | bound + 1, cs =>
      match closing? '"' cs with
      | some answer => some answer
      | none =>
          match cs with
          | '\\' :: rest =>
              match hiddenBreak? rest with
              | some rest => readLongBasic bound rest
              | none => do
                  let (c, rest) ← escape? rest
                  let (content, rest) ← readLongBasic bound rest
                  return (c :: content, rest)
          | '\n' :: rest | '\r' :: '\n' :: rest =>
              (readLongBasic bound rest).map fun (content, rest) => ('\n' :: content, rest)
          | c :: rest =>
              if isPlain c || c == '"' then
                (readLongBasic bound rest).map fun (content, rest) => (c :: content, rest)
              else none
          | [] => none

/-- Reads a string of several lines between tripled single quotes, after the opening
ones. -/
def readLongLiteral : Nat → Reader (List Char)
  | 0, _ => none
  | bound + 1, cs =>
      match closing? '\'' cs with
      | some answer => some answer
      | none =>
          match cs with
          | '\n' :: rest | '\r' :: '\n' :: rest =>
              (readLongLiteral bound rest).map fun (content, rest) => ('\n' :: content, rest)
          | c :: rest =>
              if isLiteral c || c == '\'' then
                (readLongLiteral bound rest).map fun (content, rest) => (c :: content, rest)
              else none
          | [] => none

/-- A line end right after the opening quotes of a string of several lines is dropped. -/
def dropFirstBreak (cs : List Char) : List Char := (newline? cs).getD cs

/-- Reads a string of any of the four forms. -/
def readString (cs : List Char) : Option (String × List Char) :=
  let bound := cs.length + 1
  let content :=
    match cs with
    | '"' :: '"' :: '"' :: rest => readLongBasic bound (dropFirstBreak rest)
    | '"' :: rest => readBasic bound rest
    | '\'' :: '\'' :: '\'' :: rest => readLongLiteral bound (dropFirstBreak rest)
    | '\'' :: rest => readLiteral rest
    | _ => none
  content.map fun (cs, rest) => (String.ofList cs, rest)

/-! ## Keys -/

/-- Characters of a key without quotes. -/
def isKeyChar (c : Char) : Bool := c.isAlphanum || c == '-' || c == '_'

/-- Reads one part of a key. -/
def readKeyPart (cs : List Char) : Option (String × List Char) :=
  match cs with
  | '"' :: rest => (readBasic (rest.length + 1) rest).map fun (cs, rest) => (String.ofList cs, rest)
  | '\'' :: rest => (readLiteral rest).map fun (cs, rest) => (String.ofList cs, rest)
  | cs =>
      let part := cs.takeWhile isKeyChar
      if part.isEmpty then none else some (String.ofList part, cs.dropWhile isKeyChar)

/-- Reads parts between dots, each with spaces around it, and no more parts than the
number says. -/
def readParts : Nat → Reader (List String)
  | 0, _ => none
  | bound + 1, cs => do
      let (part, rest) ← readKeyPart (skipSpaces cs)
      match skipSpaces rest with
      | '.' :: rest => (readParts bound rest).map fun (parts, rest) => (part :: parts, rest)
      | rest => some ([part], rest)

/-- The most parts that a key may have. -/
def maxParts : Nat := 79

/-- Reads a key. -/
def readKey : Reader (List String) := readParts maxParts

/-- The parts of a key as the path and the last part. -/
def splitKey? (parts : List String) : Option (List String × String) :=
  match parts.reverse with
  | [] => none
  | key :: path => some (path.reverse, key)

end DeltaCycle.Toml
