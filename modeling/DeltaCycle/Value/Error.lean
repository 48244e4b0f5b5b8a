/-!
# Refusals of value operations

Every way in which building, indexing or converting a value is refused, with
its wording. The reasons that this library gives are named below the type, so
that each is written once.
-/

set_option autoImplicit false

namespace DeltaCycle

/-- Why a value operation is refused. -/
inductive ValueError where
  /-- A value of one kind was offered where another is required. -/
  | typeMismatch (expected found : String)
  /-- An integer lies outside the range `[min, max)`. -/
  | outOfBounds (value min max : Int)
  /-- An index does not address the value. -/
  | invalidIndex (reason : String)
  /-- The operation does not exist for this kind of value. -/
  | unsupported (reason : String)
  /-- A type definition is malformed. -/
  | invalidType (reason : String)
deriving Repr, DecidableEq

namespace ValueError

/-- The short label of the cause. -/
def label : ValueError → String
  | typeMismatch .. => "TypeMismatch"
  | outOfBounds .. => "OutOfBounds"
  | invalidIndex _ => "InvalidIndex"
  | unsupported _ => "Unsupported"
  | invalidType _ => "InvalidType"

/-- The full wording of the cause. -/
def message : ValueError → String
  | typeMismatch expected found => s!"expected {expected}, found {found}"
  | outOfBounds value min max => s!"value {value} out of range [{min}, {max})"
  | invalidIndex reason => s!"invalid index: {reason}"
  | unsupported reason => s!"unsupported: {reason}"
  | invalidType reason => s!"invalid type: {reason}"

/-- The range `[min, max)` holds no integer. -/
def emptyRange (min max : Int) : ValueError :=
  .invalidType s!"empty range [{min}, {max})"

/-- No vector has this many bits. -/
def badWidth (width widest : Nat) : ValueError :=
  .invalidType s!"bit width {width} not in 1..={widest}"

/-- The bit lies beyond the payload. -/
def bitBeyondPayload (index : Nat) : ValueError :=
  .invalidIndex s!"bit {index} beyond 128-bit payload"

/-- The slice lies beyond the payload. -/
def sliceBeyondPayload (hi lo : Nat) : ValueError :=
  .invalidIndex s!"slice [{hi}:{lo}] beyond 128-bit payload"

/-- The slice holds no bit. -/
def emptySlice (hi lo : Nat) : ValueError :=
  .invalidIndex s!"slice [{hi}:{lo}] is empty"

/-- The slice cannot be written. -/
def unaddressableSlice (hi lo : Nat) : ValueError :=
  .invalidIndex s!"slice [{hi}:{lo}] is not addressable"

/-- A vector without a width cannot be concatenated. -/
def unsizedPart : ValueError :=
  .unsupported "concatenation of an unsized vector"

/-- An enumeration needs an item. -/
def noItems (name : String) : ValueError :=
  .invalidType s!"enum '{name}' has no items"

/-- The items of an enumeration are distinct. -/
def repeatedItem (name item : String) : ValueError :=
  .invalidType s!"enum '{name}' repeats item '{item}'"

end ValueError

end DeltaCycle
