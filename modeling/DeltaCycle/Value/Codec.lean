import DeltaCycle.Text.Json
import DeltaCycle.Value

/-!
# Written values

The JSON form of a value: an object whose one member names the shape of the value
and holds its content, and the bare name `Z` for high impedance. A record is
written as an object with its fields in order; reading also accepts the fields in
another order, members that are no field, and an array of all fields in order.

Reading checks the form only. It does not check what the builders of vectors and
enumerations check, so a text may describe a value that no builder makes.
-/

set_option autoImplicit false

namespace DeltaCycle

namespace Json

/-- The member of this name in an object with at most one such member. -/
def memberOnce? (name : String) (members : List (Option String × Json)) :
    Option (Option Json) :=
  match members.filter (·.1 == some name) with
  | [] => some none
  | [(_, value)] => some (some value)
  | _ => none

/-- The fields of a record, absent ones included: an object names every field at most
once, an array lists all of them. -/
def fields? (names : List String) : Json → Option (List (Option Json))
  | object members =>
      if members.any (·.1.isNone) then none
      else names.mapM fun name => memberOnce? name members
  | array elements =>
      if elements.length = names.length then some (elements.map some) else none
  | _ => none

/-- An integer of the payload. -/
def payload? : Json → Option Int
  | integer negative magnitude =>
      let n : Int := if negative then -magnitude else magnitude
      if Bits.leastPayload ≤ n ∧ n ≤ Bits.greatestPayload then some n else none
  | _ => none

/-- An integer of the payload, or nothing for `null`. -/
def optionalPayload? : Option Json → Option (Option Int)
  | none => some none
  | some null => some none
  | some j => (payload? j).map some

/-- A natural number below `2 ^ 32`, written without a sign. -/
def count? : Json → Option Nat
  | integer false magnitude => if magnitude < Nat.pow 2 32 then some magnitude else none
  | _ => none

/-- The content of a string. -/
def content? : Json → Option String
  | string content => content
  | _ => none

/-- The strings of an array. -/
def contents? : Json → Option (List String)
  | array elements => elements.mapM content?
  | _ => none

/-- The name of an alternative without content, given alone or as the only member of
an object around `null`. -/
def choice? : Json → Option String
  | string content => content
  | object [(some name, null)] => some name
  | _ => none

/-- The numeral of an integer that may be absent. -/
def ofInt? : Option Int → Json
  | some n => ofInt n
  | none => null

end Json

namespace Bits

/-- The record form of a vector. -/
def toJson (b : Bits) : Json :=
  .ofMembers [("val", .ofInt b.val), ("min", .ofInt? b.min), ("max", .ofInt? b.max),
    ("nrbits", .ofNat b.width)]

/-- Reads the record form of a vector. -/
def ofJson? (j : Json) : Option Bits := do
  match ← j.fields? ["val", "min", "max", "nrbits"] with
  | [some val, min, max, some width] =>
      return ⟨← val.payload?, ← Json.optionalPayload? min, ← Json.optionalPayload? max,
        ← width.count?⟩
  | _ => none

end Bits

namespace Enumeration

/-- The record form of an enumeration. -/
def toJson (e : Enumeration) : Json :=
  .ofMembers [("name", .ofString e.name), ("items", .array (e.items.map .ofString)),
    ("encoding", .ofString e.encoding.text)]

/-- Reads the record form of an enumeration. -/
def ofJson? (j : Json) : Option Enumeration := do
  match ← j.fields? ["name", "items", "encoding"] with
  | [some name, some items, some encoding] =>
      return ⟨← name.content?, ← items.contents?, ← Encoding.ofText? (← encoding.choice?)⟩
  | _ => none

end Enumeration

namespace EnumItem

/-- The record form of an item. -/
def toJson (item : EnumItem) : Json :=
  .ofMembers [("ty", item.type.toJson), ("index", .ofNat item.index)]

/-- Reads the record form of an item. -/
def ofJson? (j : Json) : Option EnumItem := do
  match ← j.fields? ["ty", "index"] with
  | [some type, some index] => return ⟨← Enumeration.ofJson? type, ← index.count?⟩
  | _ => none

end EnumItem

namespace Value

/-- The JSON form of a value. -/
def toJson : Value → Json
  | bool b => .ofMembers [("Bool", .bool b)]
  | int n => .ofMembers [("Int", .ofInt n)]
  | bits b => .ofMembers [("Bits", b.toJson)]
  | enum item => .ofMembers [("Enum", item.toJson)]
  | highZ => .ofString "Z"

/-- Reads the JSON form of a value. -/
def ofJson? : Json → Option Value
  | .string (some "Z") => some .highZ
  | .object [(some "Z", .null)] => some .highZ
  | .object [(some "Bool", .bool b)] => some (.bool b)
  | .object [(some "Int", j)] => j.payload?.map .int
  | .object [(some "Bits", j)] => (Bits.ofJson? j).map .bits
  | .object [(some "Enum", j)] => (EnumItem.ofJson? j).map .enum
  | _ => none

/-- The compact text of a value. -/
def encode (v : Value) : String := v.toJson.text

/-- Reads a value from a text that holds nothing else. -/
def decode? (text : String) : Option Value := do ofJson? (← Json.parse? text)

end Value

end DeltaCycle
