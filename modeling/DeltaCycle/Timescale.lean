import DeltaCycle.Text.Blank
import DeltaCycle.Text.Digits

/-!
# Timescales

Time is counted in ticks without a unit. A timescale says what one tick means, as
1, 10 or 100 of a unit between femtoseconds and seconds. It is used for display
only.
-/

set_option autoImplicit false

namespace DeltaCycle

/-- The last tick. -/
def lastTick : Nat := Nat.pow 2 64 - 1

/-- A time unit. -/
inductive TimeUnit where
  | femto
  | pico
  | nano
  | micro
  | milli
  | second
deriving Repr, DecidableEq, Inhabited

namespace TimeUnit

/-- The symbol of the unit. -/
def symbol : TimeUnit → String
  | femto => "fs"
  | pico => "ps"
  | nano => "ns"
  | micro => "us"
  | milli => "ms"
  | second => "s"

/-- The unit with this symbol. -/
def ofSymbol? : List Char → Option TimeUnit
  | ['f', 's'] => some femto
  | ['p', 's'] => some pico
  | ['n', 's'] => some nano
  | ['u', 's'] => some micro
  | ['m', 's'] => some milli
  | ['s'] => some second
  | _ => none

/-- The place of the unit in the order of sizes. -/
def rank : TimeUnit → Nat
  | femto => 0
  | pico => 1
  | nano => 2
  | micro => 3
  | milli => 4
  | second => 5

end TimeUnit

/-- What one tick means. -/
structure Timescale where
  magnitude : Nat
  unit : TimeUnit
deriving Repr, DecidableEq

/-- A text that is no timescale. -/
structure TimescaleError where
  text : String
deriving Repr, DecidableEq

namespace TimescaleError

/-- The full wording. -/
def message (e : TimescaleError) : String := s!"invalid timescale '{e.text}'"

end TimescaleError

namespace Timescale

instance : Inhabited Timescale := ⟨⟨1, .nano⟩⟩

/-- The magnitudes that a timescale may have. -/
def isMagnitude (n : Nat) : Bool := n == 1 || n == 10 || n == 100

/-- A timescale of the given magnitude and unit. -/
def ofParts (magnitude : Nat) (unit : TimeUnit) : Except TimescaleError Timescale :=
  if isMagnitude magnitude then .ok ⟨magnitude, unit⟩
  else .error ⟨s!"{magnitude}{unit.symbol}"⟩

/-- The timescale in its shortest form. -/
def text (t : Timescale) : String := toString t.magnitude ++ t.unit.symbol

/-- Reads digits followed by a unit symbol, with blanks allowed before, between and
after them. -/
def ofChars? (cs : List Char) : Option Timescale :=
  let trimmed := Text.trim cs
  let digits := trimmed.takeWhile Text.isDigit
  if digits.isEmpty then
    none
  else
    match TimeUnit.ofSymbol? (Text.trim (trimmed.dropWhile Text.isDigit)) with
    | none => none
    | some unit =>
        let magnitude := Text.digitsValue digits
        if isMagnitude magnitude then some ⟨magnitude, unit⟩ else none

/-- Reads a timescale; a refusal carries the text unchanged. -/
def parse (text : String) : Except TimescaleError Timescale :=
  match ofChars? text.toList with
  | some t => .ok t
  | none => .error ⟨text⟩

/-- A number of ticks in the unit of the timescale; amounts beyond the last tick are
shown as the last tick. -/
def formatTicks (t : Timescale) (ticks : Nat) : String :=
  s!"{Nat.min (ticks * t.magnitude) lastTick} {t.unit.symbol}"

end Timescale

end DeltaCycle
