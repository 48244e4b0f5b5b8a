import DeltaCycle.Toml.Tree

/-!
# Reading TOML documents

Values nest, to a depth that is bounded. A document is a sequence of lines, each of
which changes the tree read so far.
-/

set_option autoImplicit false

namespace DeltaCycle.Toml

/-- The text after spaces, line ends and comments inside brackets. The number bounds
the lines skipped. -/
def skipLines : Nat → List Char → List Char
  | 0, cs => cs
  | bound + 1, cs =>
      let rest := skipSpaces cs
      match newline? (skipComment rest) with
      | some rest => skipLines bound rest
      | none => rest

/-- The most arrays and inline tables that may lie around a value. -/
def maxDepth : Nat := 79

/-- Reads a value that is no array and no table. -/
def readScalar (cs : List Char) : Option (Item × List Char) :=
  match cs with
  | '"' :: _ | '\'' :: _ => (readString cs).map fun (s, rest) => (.string s, rest)
  | 't' :: 'r' :: 'u' :: 'e' :: rest => some (.boolean true, rest)
  | 'f' :: 'a' :: 'l' :: 's' :: 'e' :: rest => some (.boolean false, rest)
  | cs =>
      match readMoment cs with
      | some (m, rest) => some (.moment m, rest)
      | none =>
          match readNumber cs with
          | some (.integer n, rest) => some (.integer n, rest)
          | some (.decimal x, rest) => some (.decimal x, rest)
          | none => none

/-- Reads the elements of an array up to its closing bracket. A comma may follow the
last one. The number bounds the elements. -/
def readElements (read : Reader Item) : Nat → Reader (List Item)
  | 0, _ => none
  | bound + 1, cs =>
      match skipLines cs.length cs with
      | ']' :: rest => some ([], rest)
      | cs => do
          let (element, rest) ← read cs
          match skipLines rest.length rest with
          | ',' :: rest =>
              (readElements read bound rest).map fun (es, rest) => (element :: es, rest)
          | ']' :: rest => some ([element], rest)
          | _ => none

/-- Reads the definitions of an inline table up to its closing brace; there is at least
one, and all stand on one line. The number bounds them. -/
def readDefinitions (read : Reader Item) : Nat → Reader (List (List String × String × Item))
  | 0, _ => none
  | bound + 1, cs => do
      let (parts, rest) ← readKey cs
      let (path, key) ← splitKey? parts
      match skipSpaces rest with
      | '=' :: rest =>
          let (value, rest) ← read (skipSpaces rest)
          match skipSpaces rest with
          | ',' :: rest =>
              (readDefinitions read bound rest).map fun (ds, rest) =>
                ((path, key, value) :: ds, rest)
          | '\x7d' :: rest => some ([(path, key, value)], rest)
          | _ => none
      | _ => none

/-- Reads one value in which arrays and inline tables nest no deeper than the number
says. -/
def readValue : Nat → Reader Item
  | 0 => readScalar
  | depth + 1 => fun cs =>
      match cs with
      | '[' :: rest =>
          (readElements (readValue depth) (rest.length + 1) rest).map fun (es, rest) =>
            (.array es, rest)
      | '\x7b' :: rest =>
          match skipSpaces rest with
          | '\x7d' :: rest => (inlineTable? []).map (·, rest)
          | rest => do
              let (definitions, rest) ← readDefinitions (readValue depth) (rest.length + 1) rest
              return (← inlineTable? definitions, rest)
      | cs => readScalar cs

/-- A document in progress: the tree so far, and the path of the table that is open. -/
structure Draft where
  entries : Entries := []
  openPath : List String := []

/-- Changes the table that the path leads to from the root. -/
def Draft.change (d : Draft) (path : List String) (change : Change) : Option Draft :=
  (changeAt false change path .header d.entries).map fun (_, entries) => { d with entries }

/-- Reads a definition and puts it into the open table. -/
def readDefinition (d : Draft) (cs : List Char) : Option (Draft × List Char) := do
  let (parts, rest) ← readKey cs
  let (path, key) ← splitKey? parts
  match rest.dropWhile isSpace with
  | '=' :: rest =>
      let (value, rest) ← readValue maxDepth (skipSpaces rest)
      let rest ← lineEnd? rest
      return (← d.change d.openPath (define path key value), rest)
  | _ => none

/-- Reads a table header after its opening bracket, and opens the table. -/
def readHeader (d : Draft) (cs : List Char) : Option (Draft × List Char) := do
  let (parts, rest) ← readKey cs
  let (path, key) ← splitKey? parts
  match skipSpaces rest with
  | ']' :: rest =>
      let rest ← lineEnd? rest
      let d ← d.change path (openTable key)
      return ({ d with openPath := parts }, rest)
  | _ => none

/-- Reads a doubled header after its opening brackets, and opens the next table. -/
def readNextHeader (d : Draft) (cs : List Char) : Option (Draft × List Char) := do
  let (parts, rest) ← readKey cs
  let (path, key) ← splitKey? parts
  match skipSpaces rest with
  | ']' :: ']' :: rest =>
      let rest ← lineEnd? rest
      let d ← d.change path (openNext key)
      return ({ d with openPath := parts }, rest)
  | _ => none

/-- Reads lines to the end of the text. The number bounds the lines. -/
def readDocument : Nat → Draft → List Char → Option Entries
  | 0, _, _ => none
  | bound + 1, d, cs =>
      match skipSpaces cs with
      | [] => some d.entries
      | '#' :: rest => do readDocument bound d (← lineEnd? ('#' :: rest))
      | '\n' :: rest => readDocument bound d rest
      | '\r' :: '\n' :: rest => readDocument bound d rest
      | '[' :: '[' :: rest => do
          let (d, rest) ← readNextHeader d rest
          readDocument bound d rest
      | '[' :: rest => do
          let (d, rest) ← readHeader d rest
          readDocument bound d rest
      | cs => do
          let (d, rest) ← readDefinition d cs
          readDocument bound d rest

/-- Reads a document; a byte order mark at its start is skipped. -/
def parse? (text : String) : Option Entries :=
  let cs :=
    match text.toList with
    | '\uFEFF' :: rest => rest
    | cs => cs
  readDocument (cs.length + 1) {} cs

end DeltaCycle.Toml
