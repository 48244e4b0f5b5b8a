import DeltaCycle.Attempt
import DeltaCycle.Text.Digits
import DeltaCycle.Value.Error

/-!
# Bit vectors

A bit vector is an integer together with the range `[min, max)` it was declared
with and the number of bits that the range takes. Bits are those of the two's
complement form, numbered from the least significant one; a slice `[hi:lo]`
holds the bits from `lo` up to but not including `hi`. A vector may also be
unbounded, with neither range nor width.

Integers are unlimited here. What the 128-bit payload of a vector imposes is
stated where it shows: the widest vector, the last addressable bit, and the one
lower end whose negation has no payload.
-/

set_option autoImplicit false

namespace DeltaCycle

/-- An integer with its declared range and bit width. Two vectors may carry the
same integer and differ in range, see `Bits.same`. -/
structure Bits where
  /-- The integer. -/
  val : Int
  /-- Inclusive lower end of the range, if bounded. -/
  min : Option Int
  /-- Exclusive upper end of the range, if bounded. -/
  max : Option Int
  /-- Number of bits; zero for an unsized vector. -/
  width : Nat
deriving Repr, DecidableEq, Inhabited

namespace Bits

/-- The number of bits of a payload. -/
def payloadWidth : Nat := 128

/-- The least integer that a payload holds. -/
def leastPayload : Int := -(Int.pow 2 127)

/-- The greatest integer that a payload holds. -/
def greatestPayload : Int := Int.pow 2 127 - 1

/-- The payload with the low bits of an integer. -/
def toPayload (n : Int) : Int := n.bmod (Nat.pow 2 payloadWidth)

/-- The widest vector that can be declared. -/
def widest : Nat := 126

/-- Bits up to the leading one of the payload: those of the numeral for a natural
number, and all of them for a negative one, whose payload starts with a one. -/
def significantBits (n : Int) : Nat :=
  if n < 0 then payloadWidth else if n = 0 then 0 else n.toNat.log2 + 1

/-- The width that the range `[min, max)` is given. -/
def widthOfRange (min max : Int) : Nat :=
  if min < 0 then
    Nat.max (Nat.max (significantBits (max - 1)) 1 + 1) (significantBits (-min - 1) + 1)
  else
    Nat.max (significantBits (max - 1)) 1

/-- A declared width lies between one and the widest. -/
def checkWidth (width : Nat) : Except ValueError Unit :=
  if width = 0 ∨ widest < width then .error (.badWidth width widest) else .ok ()

/-- Checks an integer against the range of the vector, if it has one. -/
def checkRange (b : Bits) (v : Int) : Except ValueError Unit :=
  match b.min, b.max with
  | some min, some max =>
      if v < min ∨ max ≤ v then .error (.outOfBounds v min max) else .ok ()
  | _, _ => .ok ()

/-- A vector that already fits its range. -/
def checked (b : Bits) : Except ValueError Bits :=
  match b.checkRange b.val with
  | .ok _ => .ok b
  | .error cause => .error cause

/-- A vector over the range `[min, max)`. The width is computed before the integer
is checked; it is undefined for the least payload as the lower end, which has no
negation among payloads. -/
def ofRange (val min max : Int) : Attempt ValueError Bits :=
  if max ≤ min then
    .error (.refused (.emptyRange min max))
  else if min = leastPayload then
    .error .undefined
  else
    let width := widthOfRange min max
    match checkWidth width with
    | .error cause => .error (.refused cause)
    | .ok _ => .ofExcept (checked ⟨val, some min, some max, width⟩)

/-- A vector of `width` bits over `[0, 2 ^ width)`. -/
def unsigned (val : Int) (width : Nat) : Except ValueError Bits :=
  match checkWidth width with
  | .error cause => .error cause
  | .ok _ => checked ⟨val, some 0, some (Int.pow 2 width), width⟩

/-- A vector of `width` bits over `[-2 ^ (width - 1), 2 ^ (width - 1))`. -/
def signed (val : Int) (width : Nat) : Except ValueError Bits :=
  match checkWidth width with
  | .error cause => .error cause
  | .ok _ => checked ⟨val, some (-(Int.pow 2 (width - 1))), some (Int.pow 2 (width - 1)), width⟩

/-- A vector without range or width. -/
def unbounded (val : Int) : Bits := ⟨val, none, none, 0⟩

/-- Whether the range admits negative integers. -/
def isSigned (b : Bits) : Bool :=
  match b.min with
  | some min => decide (min < 0)
  | none => false

/-- Vectors are the same when they carry the same integer, whatever their ranges. -/
def same (a b : Bits) : Bool := a.val == b.val

/-- The same range and width around another integer. -/
def withVal (b : Bits) (v : Int) : Except ValueError Bits :=
  checked { b with val := v }

/-- Bit `index` of the two's complement form of `n`. -/
def testBit (n : Int) (index : Nat) : Bool := n / Int.pow 2 index % 2 == 1

/-- The `width` bits of `n` from bit `lo` on, as a natural number. -/
def field (n : Int) (lo width : Nat) : Int := n / Int.pow 2 lo % Int.pow 2 width

/-- Bit `index`, where the payload has one. -/
def bit (b : Bits) (index : Nat) : Except ValueError Bool :=
  if payloadWidth ≤ index then .error (.bitBeyondPayload index) else .ok (testBit b.val index)

/-- The slice `[hi:lo]` as an unsigned vector. -/
def slice (b : Bits) (hi lo : Nat) : Except ValueError Bits :=
  if hi ≤ lo then
    .error (.emptySlice hi lo)
  else
    match checkWidth (hi - lo) with
    | .error cause => .error cause
    | .ok _ =>
        if payloadWidth ≤ hi then .error (.sliceBeyondPayload hi lo)
        else unsigned (field b.val lo (hi - lo)) (hi - lo)

/-- Reads the low `width` bits of a raw payload as the vector does: in two's
complement when the range admits negative integers, and unchanged otherwise. -/
def normalize (b : Bits) (raw : Int) : Int :=
  if b.isSigned ∧ 0 < b.width then raw.bmod (Nat.pow 2 b.width) else raw

/-- The vector with bits `[lo + width:lo]` of the payload replaced by `content`. -/
def overwrite (b : Bits) (lo width : Nat) (content : Int) : Except ValueError Bits :=
  b.withVal
    (b.normalize (b.val - field b.val lo width * Int.pow 2 lo + content * Int.pow 2 lo))

/-- The vector with bit `index` replaced. The sign of the payload is not addressable. -/
def withBit (b : Bits) (index : Nat) (bit : Bool) : Except ValueError Bits :=
  if payloadWidth ≤ index + 1 then .error (.bitBeyondPayload index)
  else b.overwrite index 1 (if bit then 1 else 0)

/-- The vector with the slice `[hi:lo]` replaced by a natural number that fits it. -/
def withSlice (b : Bits) (hi lo : Nat) (content : Int) : Except ValueError Bits :=
  if hi ≤ lo ∨ payloadWidth ≤ hi then
    .error (.unaddressableSlice hi lo)
  else
    match checkWidth (hi - lo) with
    | .error cause => .error cause
    | .ok _ =>
        if content < 0 ∨ Int.pow 2 (hi - lo) ≤ content then
          .error (.outOfBounds content 0 (Int.pow 2 (hi - lo)))
        else
          b.overwrite lo (hi - lo) content

/-- Concatenation after parts that already make up `acc` in `width` bits. -/
def concatFrom (acc : Int) (width : Nat) : List Bits → Except ValueError Bits
  | [] => unsigned acc width
  | part :: rest =>
      if part.width = 0 then
        .error .unsizedPart
      else
        match checkWidth (width + part.width) with
        | .error cause => .error cause
        | .ok _ =>
            concatFrom (acc * Int.pow 2 part.width + field part.val 0 part.width)
              (width + part.width) rest

/-- Joins sized vectors into an unsigned one, the most significant part first. -/
def concat (parts : List Bits) : Except ValueError Bits := concatFrom 0 0 parts

/-- The bit pattern: as many digits as the vector has bits, and the payload without
leading zeros when it has no width. -/
def binary (b : Bits) : String :=
  if b.width = 0 then
    Text.padded 2 0 (field b.val 0 payloadWidth).toNat
  else
    Text.padded 2 b.width (field b.val 0 b.width).toNat

end Bits

end DeltaCycle
