import DeltaCycle.Toml.Phrase

/-!
# Numbers of TOML

Integers have 64 bits. A number with a fraction or an exponent is kept exactly, within
the range of the doubles: beyond it a positive number is refused, and a negative one is
negative infinity.
-/

set_option autoImplicit false

namespace DeltaCycle.Toml

/-- A number with a fraction or an exponent, or a special number. -/
inductive Decimal where
  /-- The number `digits · 10 ^ exponent` with its sign. -/
  | finite (negative : Bool) (digits : Nat) (exponent : Int)
  | infinite (negative : Bool)
  /-- What is called `nan`. -/
  | undefined
deriving Repr, DecidableEq, Inhabited

/-- A number. -/
inductive Number where
  | integer (n : Int)
  | decimal (x : Decimal)
deriving Repr, DecidableEq, Inhabited

/-! ## Digits -/

/-- Reads digits of a base, single underscores allowed between two of them. -/
def readDigits (isDigit : Char → Bool) : Reader (List Char)
  | '_' :: _ => none
  | cs => go cs
where
  /-- Reads the digits that follow, at least one of them. -/
  go : Reader (List Char)
    | c :: '_' :: d :: rest =>
        if isDigit c then
          if isDigit d then (go (d :: rest)).map fun (ds, rest) => (c :: ds, rest) else none
        else none
    | c :: d :: rest =>
        if isDigit c then
          if isDigit d then (go (d :: rest)).map fun (ds, rest) => (c :: ds, rest)
          else some ([c], d :: rest)
        else none
    | [c] => if isDigit c then some ([c], []) else none
    | [] => none

/-- Reads the digits before a point: no digit follows a leading zero. -/
def readWhole : Reader (List Char)
  | '0' :: rest => some (['0'], rest)
  | cs => readDigits Text.isDigit cs

/-- Reads a sign, if there is one; the answer says whether it is a minus. -/
def readSign : List Char → Bool × List Char
  | '+' :: rest => (false, rest)
  | '-' :: rest => (true, rest)
  | cs => (false, cs)

/-- The number with this sign. -/
def signed (negative : Bool) (n : Nat) : Int := if negative then -n else n

/-! ## Integers -/

/-- An integer of 64 bits. -/
def word? (n : Int) : Option Int :=
  if -(Int.pow 2 63) ≤ n ∧ n < Int.pow 2 63 then some n else none

/-- Reads an integer of a base other than ten, after its mark. -/
def readBase (base : Nat) : Reader Number := fun cs => do
  let (digits, rest) ← readDigits (fun c => (digitValue? base c).isSome) cs
  let n ← word? (← numeral? base digits)
  return (.integer n, rest)

/-! ## Decimals -/

/-- The least number that is not rounded to a double: it lies halfway between the
greatest double and the next power of two. -/
def doubleBound : Nat := Nat.pow 2 1024 - Nat.pow 2 970

/-- Whether the number `digits · 10 ^ exponent` is beyond the doubles. The bound has 309
digits, so large exponents are not carried out. -/
def isTooLarge (digits : List Char) (exponent : Int) : Bool :=
  let n := Text.digitsValue digits
  if n = 0 then false
  else if 309 ≤ exponent then true
  else if 0 ≤ exponent then doubleBound ≤ n * Nat.pow 10 exponent.toNat
  else if exponent ≤ -digits.length then false
  else doubleBound * Nat.pow 10 (-exponent).toNat ≤ n

/-- The number `digits · 10 ^ exponent` with its sign. -/
def decimal? (negative : Bool) (digits : List Char) (exponent : Int) : Option Decimal :=
  if isTooLarge digits exponent then
    if negative then some (.infinite true) else none
  else
    some (.finite negative (Text.digitsValue digits) exponent)

/-- Reads a fraction, if a point comes first. -/
def readFraction : Reader (Option (List Char))
  | '.' :: rest => (readDigits Text.isDigit rest).map fun (digits, rest) => (some digits, rest)
  | cs => some (none, cs)

/-- Reads an exponent, if its mark comes first. -/
def readExponent : Reader (Option Int)
  | 'e' :: rest | 'E' :: rest => do
      let (negative, rest) := readSign rest
      let (digits, rest) ← readDigits Text.isDigit rest
      return (some (signed negative (Text.digitsValue digits)), rest)
  | cs => some (none, cs)

/-- Reads a number after its sign. -/
def readUnsigned (negative : Bool) : Reader Number
  | 'i' :: 'n' :: 'f' :: rest => some (.decimal (.infinite negative), rest)
  | 'n' :: 'a' :: 'n' :: rest => some (.decimal .undefined, rest)
  | cs => do
      let (whole, rest) ← readWhole cs
      let (fraction, rest) ← readFraction rest
      let (exponent, rest) ← readExponent rest
      match fraction, exponent with
      | none, none =>
          let n ← word? (signed negative (Text.digitsValue whole))
          return (.integer n, rest)
      | _, _ =>
          let fraction := fraction.getD []
          let x ← decimal? negative (whole ++ fraction) (exponent.getD 0 - fraction.length)
          return (.decimal x, rest)

/-- Reads a number. Only decimal numbers may have a sign. -/
def readNumber : Reader Number
  | '0' :: 'x' :: rest => readBase 16 rest
  | '0' :: 'o' :: rest => readBase 8 rest
  | '0' :: 'b' :: rest => readBase 2 rest
  | cs =>
      let (negative, rest) := readSign cs
      readUnsigned negative rest

end DeltaCycle.Toml
