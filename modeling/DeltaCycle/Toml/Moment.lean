import DeltaCycle.Toml.Phrase

/-!
# Dates and times of TOML

A day of the calendar, a time of day, or both, then possibly with the distance from
universal time. A part that may follow and cannot be read is left to the text that
follows.
-/

set_option autoImplicit false

namespace DeltaCycle.Toml

/-- A day of the calendar. -/
structure Date where
  year : Nat
  month : Nat
  day : Nat
deriving Repr, DecidableEq, Inhabited

/-- A time of day. A minute may have a leap second. -/
structure TimeOfDay where
  hour : Nat
  minute : Nat
  second : Nat
  /-- Digits of the fraction of a second beyond the ninth are dropped. -/
  nanosecond : Nat := 0
deriving Repr, DecidableEq, Inhabited

/-- A distance from universal time. -/
inductive Offset where
  /-- Universal time itself. -/
  | universal
  | minutes (n : Int)
deriving Repr, DecidableEq, Inhabited

/-- A date, a time, or both. -/
inductive Moment where
  | date (date : Date)
  | time (time : TimeOfDay)
  | dateTime (date : Date) (time : TimeOfDay) (offset : Option Offset)
deriving Repr, DecidableEq, Inhabited

/-- Whether a year has a day more. -/
def isLeapYear (year : Nat) : Bool := year % 4 == 0 && (year % 100 != 0 || year % 400 == 0)

/-- The number of days of a month. -/
def daysInMonth (year month : Nat) : Nat :=
  if month = 2 then if isLeapYear year then 29 else 28
  else if month ∈ [4, 6, 9, 11] then 30
  else 31

/-- Reads a numeral of as many digits as `count` says, within bounds. -/
def readField (count low high : Nat) : Reader Nat := fun cs =>
  let digits := cs.take count
  let n := Text.digitsValue digits
  if digits.length = count ∧ digits.all Text.isDigit ∧ low ≤ n ∧ n ≤ high then
    some (n, cs.drop count)
  else
    none

/-- Reads a mark and what it announces. -/
def readAfter {α : Type} (isMark : Char → Bool) (read : Reader α) : Reader α
  | c :: rest => if isMark c then read rest else none
  | [] => none

/-- Reads a phrase if it is there. -/
def readOptional {α : Type} (read : Reader α) (cs : List Char) : Option α × List Char :=
  match read cs with
  | some (a, rest) => (some a, rest)
  | none => (none, cs)

/-- Reads a date. -/
def readDate : Reader Date := fun cs => do
  let (year, rest) ← readField 4 0 9999 cs
  let (month, rest) ← readAfter (· == '-') (readField 2 1 12) rest
  let (day, rest) ← readAfter (· == '-') (readField 2 1 (daysInMonth year month)) rest
  return ({ year, month, day }, rest)

/-- Reads the digits of a fraction of a second. -/
def readNanoseconds : Reader Nat := fun cs =>
  let digits := cs.takeWhile Text.isDigit
  if digits.isEmpty then none
  else
    let kept := digits.take 9
    some (Text.digitsValue kept * Nat.pow 10 (9 - kept.length), cs.dropWhile Text.isDigit)

/-- Reads an hour and a minute with a colon between. -/
def readHourMinute : Reader (Nat × Nat) := fun cs => do
  let (hour, rest) ← readField 2 0 23 cs
  let (minute, rest) ← readAfter (· == ':') (readField 2 0 59) rest
  return ((hour, minute), rest)

/-- Reads a time of day. -/
def readTime : Reader TimeOfDay := fun cs => do
  let ((hour, minute), rest) ← readHourMinute cs
  let (second, rest) ← readAfter (· == ':') (readField 2 0 60) rest
  let (nanosecond, rest) := readOptional (readAfter (· == '.') readNanoseconds) rest
  return ({ hour, minute, second, nanosecond := nanosecond.getD 0 }, rest)

/-- Reads a distance from universal time. -/
def readOffset : Reader Offset
  | 'Z' :: rest | 'z' :: rest => some (.universal, rest)
  | '+' :: rest =>
      (readHourMinute rest).map fun ((hour, minute), rest) =>
        (.minutes (hour * 60 + minute : Nat), rest)
  | '-' :: rest =>
      (readHourMinute rest).map fun ((hour, minute), rest) =>
        (.minutes (-(hour * 60 + minute : Nat)), rest)
  | _ => none

/-- Reads a date, a time, or both. -/
def readMoment : Reader Moment := fun cs =>
  match readDate cs with
  | some (date, rest) =>
      match readAfter (fun c => c == 'T' || c == 't' || c == ' ') readTime rest with
      | some (time, rest) =>
          let (offset, rest) := readOptional readOffset rest
          some (.dateTime date time offset, rest)
      | none => some (.date date, rest)
  | none => (readTime cs).map fun (time, rest) => (.time time, rest)

end DeltaCycle.Toml
