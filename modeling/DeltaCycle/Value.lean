import DeltaCycle.Enumeration

/-!
# Signal values and kinds

A value is a boolean, an integer, a bit vector, an enumeration item, or high
impedance. The kind of a signal is fixed by its initial value; every later value
is coerced to that kind, which either restates it in the representation of the
signal or refuses it. High impedance passes every kind.
-/

set_option autoImplicit false

namespace DeltaCycle

/-- A signal value. -/
inductive Value where
  | bool (b : Bool)
  | int (n : Int)
  | bits (b : Bits)
  | enum (item : EnumItem)
  /-- High impedance: nothing drives the signal. -/
  | highZ
deriving Repr, DecidableEq, Inhabited

/-- What a signal accepts. -/
inductive Kind where
  /-- Booleans, and the integers 0 and 1. -/
  | bool
  /-- Anything numeric. -/
  | int
  /-- Anything numeric within the range of the template. -/
  | bits (template : Bits)
  /-- Items of this enumeration. -/
  | enum (type : Enumeration)
  /-- Anything. -/
  | any
deriving Repr, DecidableEq, Inhabited

namespace Value

/-- Equality of values as the simulation sees it: bit vectors are compared by their
integers alone, and values of different shape differ. -/
def same : Value → Value → Bool
  | bool a, bool b => a == b
  | int a, int b => a == b
  | bits a, bits b => a.same b
  | enum a, enum b => a == b
  | highZ, highZ => true
  | _, _ => false

/-- Whether the value is high impedance. -/
def isHighZ : Value → Bool
  | highZ => true
  | _ => false

/-- The logic level for edges: zero, `false` and high impedance are low. -/
def truthy : Value → Bool
  | bool b => b
  | int n => n != 0
  | bits b => b.val != 0
  | enum _ => true
  | highZ => false

/-- Number of bits, if the value has one. -/
def width? : Value → Option Nat
  | bool _ => some 1
  | bits b => if b.width = 0 then none else some b.width
  | enum item => some item.type.width
  | int _ | highZ => none

/-- The integer of a numeric value. -/
def toInt? : Value → Option Int
  | bool b => some (if b then 1 else 0)
  | int n => some n
  | bits b => some b.val
  | enum _ | highZ => none

/-- The kind of the value in words, as refusals name it. -/
def kindName : Value → String
  | bool _ => "bool"
  | int _ => "int"
  | bits b => s!"intbv[{b.width}]"
  | enum item => s!"enum {item.type.name}"
  | highZ => "Z"

/-- The value as a bit vector, for slicing and concatenation. -/
def toBits : Value → Except ValueError Bits
  | bool b => Bits.unsigned (if b then 1 else 0) 1
  | bits b => .ok b
  | enum item => Bits.unsigned item.code item.type.width
  | v => .error (.unsupported s!"{v.kindName} has no bit representation")

/-- Bit `index` of a bit vector. -/
def bit (v : Value) (index : Nat) : Except ValueError Bool :=
  match v with
  | bits b => b.bit index
  | v => .error (.unsupported s!"bit access on {v.kindName}")

/-- The slice `[hi:lo]` of a bit vector. -/
def slice (v : Value) (hi lo : Nat) : Except ValueError Bits :=
  match v with
  | bits b => b.slice hi lo
  | v => .error (.unsupported s!"slice of {v.kindName}")

/-- A bit vector with bit `index` replaced. -/
def withBit (v : Value) (index : Nat) (bit : Bool) : Except ValueError Value :=
  match v with
  | bits b => (b.withBit index bit).map bits
  | v => .error (.unsupported s!"bit assignment on {v.kindName}")

/-- A bit vector with the slice `[hi:lo]` replaced. -/
def withSlice (v : Value) (hi lo : Nat) (content : Int) : Except ValueError Value :=
  match v with
  | bits b => (b.withSlice hi lo content).map bits
  | v => .error (.unsupported s!"slice assignment on {v.kindName}")

/-- Every value as a bit vector, or the refusal of the first that has none. -/
def allToBits : List Value → Except ValueError (List Bits)
  | [] => .ok []
  | v :: rest =>
      match v.toBits with
      | .error cause => .error cause
      | .ok b =>
          match allToBits rest with
          | .error cause => .error cause
          | .ok bs => .ok (b :: bs)

/-- Joins values into an unsigned vector, the most significant part first. All parts
are turned into vectors before any two are joined. -/
def concat (parts : List Value) : Except ValueError Bits :=
  match allToBits parts with
  | .error cause => .error cause
  | .ok bs => Bits.concat bs

/-- The kind that the value fixes as an initial value. -/
def kind : Value → Kind
  | bool _ => .bool
  | int _ => .int
  | bits b => .bits b
  | enum item => .enum item.type
  | highZ => .any

/-- The value as recorders print it; absent for an item that its enumeration lacks. -/
def text? : Value → Option String
  | bool b => some (if b then "1" else "0")
  | int n => some (toString n)
  | bits b => some (toString b.val)
  | enum item => item.name?
  | highZ => some "Z"

/-- The value with its type; absent for an item that its enumeration lacks. -/
def describe? : Value → Option String
  | bool b => some (if b then "true" else "false")
  | int n => some s!"int {n}"
  | bits b =>
      match b.min, b.max with
      | some min, some max => some s!"bits {b.val} w{b.width} [{min},{max})"
      | _, _ => some s!"bits {b.val} w{b.width}"
  | enum item => item.name?.map fun name => s!"enum {item.type.name}.{name}"
  | highZ => some "Z"

end Value

namespace Kind

/-- The kind in words. -/
def text : Kind → String
  | bool => "bool"
  | int => "int"
  | bits template => s!"intbv[{template.width}]"
  | enum type => s!"enum {type.name}"
  | any => "any"

/-- Equality of kinds; templates are compared as vectors are, by their integers alone. -/
def same : Kind → Kind → Bool
  | bool, bool => true
  | int, int => true
  | bits a, bits b => a.same b
  | enum a, enum b => a == b
  | any, any => true
  | _, _ => false

/-- The value is of another kind. -/
def mismatch (kind : Kind) (v : Value) : ValueError := .typeMismatch kind.text v.kindName

/-- Checks a value against the kind and restates it in the representation of the kind. -/
def coerce (kind : Kind) (v : Value) : Except ValueError Value :=
  match v with
  | .highZ => .ok .highZ
  | v =>
      match kind with
      | any => .ok v
      | bool =>
          match v with
          | .bool b => .ok (.bool b)
          | .int n | .bits ⟨n, _, _, _⟩ =>
              if n = 0 then .ok (.bool false)
              else if n = 1 then .ok (.bool true)
              else .error (.outOfBounds n 0 2)
          | v => .error (kind.mismatch v)
      | int =>
          match v.toInt? with
          | some n => .ok (.int n)
          | none => .error (kind.mismatch v)
      | bits template =>
          match v.toInt? with
          | some n => (template.withVal n).map .bits
          | none => .error (kind.mismatch v)
      | enum type =>
          match v with
          | .enum item => if item.type = type then .ok (.enum item) else .error (kind.mismatch v)
          | v => .error (kind.mismatch v)

end Kind

end DeltaCycle
