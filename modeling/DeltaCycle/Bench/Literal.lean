import DeltaCycle.SimError
import DeltaCycle.Value

/-!
# Literals

A literal is a value in written form: it names the constructor of a vector, or an item of
one of the enumerations of the bench. Building it may be refused.
-/

set_option autoImplicit false

namespace DeltaCycle.Bench

/-- A value in written form. -/
inductive Literal where
  | bool (b : Bool)
  | int (n : Int)
  | highZ
  | unsigned (val : Int) (width : Nat)
  | signed (val : Int) (width : Nat)
  | range (val min max : Int)
  | unbounded (val : Int)
  /-- An item by its name, in the enumeration with this number. -/
  | item (enumeration : Nat) (name : String)
  /-- An item by its position, in the enumeration with this number. -/
  | itemAt (enumeration index : Nat)
deriving Repr, DecidableEq, Inhabited

/-- Why a literal has no value. -/
inductive LiteralError where
  | refused (cause : ValueError)
  /-- There is no such enumeration, or it has no such item. -/
  | noItem
deriving Repr, DecidableEq

namespace LiteralError

/-- The error that a missing item is for a simulation. -/
def missingItem : SimError := .invalidArgument "no such item"

/-- The error as a simulation reports it. -/
def toSimError : LiteralError → SimError
  | refused cause => .ofValueError cause
  | noItem => missingItem

end LiteralError

namespace Literal

/-- An enumeration item that may be missing. -/
def ofItem? : Option EnumItem → Attempt LiteralError Value
  | some found => .ok (.enum found)
  | none => .error (.refused .noItem)

/-- A vector that may be refused. -/
def ofBits (b : Attempt ValueError Bits) : Attempt LiteralError Value :=
  Attempt.restate .refused (b.map .bits)

/-- The value of a literal. -/
def value (enumerations : List Enumeration) : Literal → Attempt LiteralError Value
  | bool b => .ok (.bool b)
  | int n => .ok (.int n)
  | highZ => .ok .highZ
  | unsigned val width => ofBits (.ofExcept (Bits.unsigned val width))
  | signed val width => ofBits (.ofExcept (Bits.signed val width))
  | range val min max => ofBits (Bits.ofRange val min max)
  | unbounded val => .ok (.bits (.unbounded val))
  | item enumeration name => ofItem? (enumerations[enumeration]?.bind (·.item? name))
  | itemAt enumeration index => ofItem? (enumerations[enumeration]?.bind (·.itemAt? index))

end Literal

end DeltaCycle.Bench
