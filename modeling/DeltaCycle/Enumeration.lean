import DeltaCycle.Bits

/-!
# Enumerations

An enumeration is a named list of items with an encoding, which decides how many
bits an item takes and which pattern it has. Two enumerations are the same type
exactly when name, items and encoding agree.
-/

set_option autoImplicit false

namespace DeltaCycle

/-- How items become bit patterns. -/
inductive Encoding where
  /-- Item `i` is the integer `i`. -/
  | binary
  /-- Item `i` sets bit `i` alone. -/
  | oneHot
  /-- Item `i` clears bit `i` alone. -/
  | oneCold
deriving Repr, DecidableEq, Inhabited

namespace Encoding

/-- The written name of an encoding. -/
def text : Encoding → String
  | binary => "binary"
  | oneHot => "one_hot"
  | oneCold => "one_cold"

/-- Reads a written name. -/
def ofText? : String → Option Encoding
  | "binary" => some binary
  | "one_hot" => some oneHot
  | "one_cold" => some oneCold
  | _ => none

end Encoding

/-- A named list of items. -/
structure Enumeration where
  name : String
  items : List String
  encoding : Encoding
deriving Repr, DecidableEq, Inhabited

/-- One item of an enumeration, by its position. -/
structure EnumItem where
  type : Enumeration
  index : Nat
deriving Repr, DecidableEq, Inhabited

namespace Enumeration

/-- The first item that already occurs among `seen` or earlier in the list. -/
def firstRepeat? (seen : List String) : List String → Option String
  | [] => none
  | item :: rest => if item ∈ seen then some item else firstRepeat? (item :: seen) rest

/-- Declares an enumeration: there is an item, and no two are equal. -/
def declare (name : String) (items : List String) (encoding : Encoding) :
    Except ValueError Enumeration :=
  if items.isEmpty then
    .error (.noItems name)
  else
    match firstRepeat? [] items with
    | some item => .error (.repeatedItem name item)
    | none => .ok ⟨name, items, encoding⟩

/-- Number of items. -/
def size (e : Enumeration) : Nat := e.items.length

/-- Bits taken by an encoded item: for the binary encoding those of the last index,
and at least one; for the others one for each item. -/
def width (e : Enumeration) : Nat :=
  match e.encoding with
  | .binary => Nat.max (Bits.significantBits ((e.size - 1 : Nat) : Int)) 1
  | .oneHot | .oneCold => e.size

/-- The item of this name. -/
def item? (e : Enumeration) (name : String) : Option EnumItem :=
  (e.items.findIdx? (· == name)).map fun index => ⟨e, index⟩

/-- The item at this position. -/
def itemAt? (e : Enumeration) (index : Nat) : Option EnumItem :=
  if index < e.size then some ⟨e, index⟩ else none

end Enumeration

namespace EnumItem

/-- The name of the item, if the enumeration has an item at this position. -/
def name? (item : EnumItem) : Option String := item.type.items[item.index]?

/-- The bit pattern of the item, as a payload holds it. -/
def code (item : EnumItem) : Int :=
  match item.type.encoding with
  | .binary => item.index
  | .oneHot => Bits.toPayload (Int.pow 2 item.index)
  | .oneCold =>
      let ones : Int := Int.pow 2 item.type.width - 1
      ones - Bits.field ones item.index 1 * Int.pow 2 item.index

end EnumItem

end DeltaCycle
