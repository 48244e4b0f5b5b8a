import DeltaCycle.Proofs.Shapes

/-!
# Payloads

How vectors are read and joined in payloads of a fixed number of bits. A shift by as many bits as a
payload has is undefined there, and so is a result that no payload and no count of bits holds. What
has a width never comes to that: its bits, slices, concatenations and digits are those of unlimited
integers.
-/

set_option autoImplicit false

namespace DeltaCycle

open Bits

/-- The bits of a payload. -/
abbrev Word := BitVec payloadWidth

namespace Word

/-! ## Operations on payloads -/

/-- The payload of an integer. -/
def ofInt (n : Int) : Word := BitVec.ofInt payloadWidth n

/-- The first number that a count of bits cannot hold. -/
def countLimit : Nat := 2 ^ 32

/-- A payload shifted to the left. What leaves it at the top is lost. -/
def shiftLeft (a : Word) (count : Nat) : Attempt ValueError Word :=
  if payloadWidth ≤ count then .error .undefined else .ok (a <<< count)

/-- A payload shifted to the right, with copies of its sign from the top. -/
def shiftRight (a : Word) (count : Nat) : Attempt ValueError Word :=
  if payloadWidth ≤ count then .error .undefined else .ok (a.sshiftRight count)

/-- The payload of the number before. -/
def decrement (a : Word) : Attempt ValueError Word :=
  if a.toInt = leastPayload then .error .undefined else .ok (a - 1)

/-- A payload whose low bits are set. -/
def mask (width : Nat) : Attempt ValueError Word := do
  let power ← shiftLeft 1 width
  decrement power

/-- A sum of counts of bits. -/
def addCounts (a b : Nat) : Attempt ValueError Nat :=
  if countLimit ≤ a + b then .error .undefined else .ok (a + b)

/-! ## Operations on vectors -/

/-- A vector over the range from zero to the power that a shift gives. -/
def unsigned (a : Word) (width : Nat) : Attempt ValueError Bits := do
  .ofExcept (checkWidth width)
  let power ← shiftLeft 1 width
  ofRange a.toInt 0 power.toInt

/-- A bit of a vector, by a shift. -/
def bit (b : Bits) (index : Nat) : Attempt ValueError Bool :=
  if payloadWidth ≤ index then
    .error (.refused (.bitBeyondPayload index))
  else do
    let shifted ← shiftRight (ofInt b.val) index
    return shifted &&& 1 == 1

/-- A slice of a vector, by a shift and a mask. -/
def slice (b : Bits) (hi lo : Nat) : Attempt ValueError Bits :=
  if hi ≤ lo then
    .error (.refused (.emptySlice hi lo))
  else do
    .ofExcept (checkWidth (hi - lo))
    if payloadWidth ≤ hi then
      .error (.refused (.sliceBeyondPayload hi lo))
    else
      let shifted ← shiftRight (ofInt b.val) lo
      let low ← mask (hi - lo)
      unsigned (shifted &&& low) (hi - lo)

/-- Concatenation after parts that already make up `acc` in `width` bits. -/
def concatFrom (acc : Word) (width : Nat) : List Bits → Attempt ValueError Bits
  | [] => unsigned acc width
  | part :: rest =>
      if part.width = 0 then
        .error (.refused .unsizedPart)
      else do
        let width ← addCounts width part.width
        .ofExcept (checkWidth width)
        let shifted ← shiftLeft acc part.width
        let low ← mask part.width
        concatFrom (shifted ||| (ofInt part.val &&& low)) width rest

/-- Joined vectors, by shifts and masks. -/
def concat (parts : List Bits) : Attempt ValueError Bits := concatFrom 0 0 parts

/-- The digits of a vector, by a mask. -/
def binary (b : Bits) : Attempt ValueError String :=
  if b.width = 0 then
    .ok (Text.padded 2 0 (ofInt b.val).toNat)
  else do
    let low ← mask b.width
    return Text.padded 2 b.width (ofInt b.val &&& low).toNat

/-! ## Nothing overflows -/

/-- The integer is one that a payload holds. -/
def Holds (n : Int) : Prop := leastPayload ≤ n ∧ n ≤ greatestPayload

instance (n : Int) : Decidable (Holds n) := inferInstanceAs (Decidable (_ ∧ _))

variable {b : Bits} {n : Int} {lo hi width index : Nat}

theorem toInt_ofInt (holds : Holds n) : (ofInt n).toInt = n := by
  rw [ofInt, BitVec.toInt_ofInt]
  exact bmod_of_fits (by decide) ⟨holds.1, Int.lt_of_le_sub_one holds.2⟩

theorem shiftLeft_eq (a : Word) (within : width < payloadWidth) :
    shiftLeft a width = .ok (a <<< width) :=
  if_neg (Nat.not_le.mpr within)

theorem shiftRight_eq (a : Word) (within : width < payloadWidth) :
    shiftRight a width = .ok (a.sshiftRight width) :=
  if_neg (Nat.not_le.mpr within)

theorem lt_payloadWidth (narrow : width ≤ widest) : width + 1 < payloadWidth := by
  unfold widest at narrow
  unfold payloadWidth
  omega

theorem natPow_lt (narrow : width ≤ widest) : 2 * 2 ^ width < 2 ^ payloadWidth := by
  rw [Nat.mul_comm, ← Nat.pow_succ]
  exact Nat.pow_lt_pow_right (by decide) (lt_payloadWidth narrow)

/-- A natural number of no more bits than a vector has is what its payload holds. -/
theorem toInt_of_narrow {a : Word} (narrow : width ≤ widest) (fits : a.toNat ≤ 2 ^ width) :
    a.toInt = a.toNat := by
  have bound := natPow_lt narrow
  exact BitVec.toInt_eq_toNat_of_lt (by omega)

theorem toNat_power (narrow : width ≤ widest) : ((1 : Word) <<< width).toNat = 2 ^ width := by
  have bound := natPow_lt narrow
  rw [BitVec.toNat_shiftLeft, show (1 : Word).toNat = 1 from rfl, Nat.one_shiftLeft,
    Nat.mod_eq_of_lt (by omega)]

theorem toInt_power (narrow : width ≤ widest) :
    ((1 : Word) <<< width).toInt = Int.pow 2 width := by
  rw [toInt_of_narrow narrow (toNat_power narrow).le, toNat_power narrow, pow_eq_natCast]

theorem mask_eq (narrow : width ≤ widest) :
    ∃ low, mask width = .ok low ∧ low.toNat = 2 ^ width - 1 := by
  have positive := Nat.two_pow_pos width
  have bound := natPow_lt narrow
  refine ⟨(1 : Word) <<< width - 1, ?_, ?_⟩
  · rw [mask, shiftLeft_eq 1 (Nat.lt_of_succ_lt (lt_payloadWidth narrow))]
    refine if_neg ?_
    rw [toInt_power narrow]
    exact Int.ne_of_gt (Int.lt_trans (by decide) (pow_pos width))
  · have least : (1 : Word) ≤ (1 : Word) <<< width := by
      rw [BitVec.le_def, toNat_power narrow]
      exact positive
    rw [BitVec.toNat_sub_of_le least, toNat_power narrow]
    rfl

/-- A shift and a mask give the field of an integer. -/
theorem toNat_masked (holds : Holds n) (lo : Nat) {low : Word} (narrow : width ≤ widest)
    (masks : low.toNat = 2 ^ width - 1) :
    (((ofInt n).sshiftRight lo &&& low).toNat : Int) = field n lo width := by
  have shifted : ((ofInt n).sshiftRight lo).toInt = n / Int.pow 2 lo := by
    rw [BitVec.toInt_sshiftRight, toInt_ofInt holds, Int.shiftRight_eq_div_pow, pow_eq_natCast]
  have same : (n / Int.pow 2 lo) % Int.pow 2 width =
      (((ofInt n).sshiftRight lo).toNat : Int) % Int.pow 2 width := by
    have divides : Int.pow 2 width ∣ ((2 ^ payloadWidth : Nat) : Int) := by
      rw [← pow_eq_natCast]
      exact pow_dvd_pow (2 : Int) (Nat.le_of_succ_le (Nat.le_of_lt (lt_payloadWidth narrow)))
    rw [← shifted, BitVec.toInt_eq_toNat_bmod, ← Int.emod_emod_of_dvd _ divides, Int.bmod_emod,
      Int.emod_emod_of_dvd _ divides]
  rw [BitVec.toNat_and, masks, Nat.and_two_pow_sub_one_eq_mod, Int.natCast_emod, ← pow_eq_natCast,
    ← same]
  rfl

theorem unsigned_eq (a : Word) (width : Nat) :
    unsigned a width = .ofExcept (Bits.unsigned a.toInt width) := by
  unfold unsigned
  cases declared : checkWidth width with
  | error cause =>
      unfold Bits.unsigned
      rw [declared]
      rfl
  | ok _ =>
      obtain ⟨sized, narrow⟩ := checkWidth_eq_ok_iff.mp declared
      rw [shiftLeft_eq 1 (Nat.lt_of_succ_lt (lt_payloadWidth narrow)), ← ofRange_unsigned _ sized,
        ← toInt_power narrow]
      rfl

/-- A bit is read from the payload. -/
theorem bit_eq (holds : Holds b.val) (index : Nat) :
    bit b index = .ofExcept (b.bit index) := by
  unfold bit Bits.bit
  split
  · rfl
  · next within =>
      have masks : (1 : Word).toNat = 2 ^ 1 - 1 := rfl
      have single := toNat_masked holds index (by decide : 1 ≤ widest) masks
      rw [field_one] at single
      rw [shiftRight_eq _ (Nat.lt_of_not_le within)]
      refine congrArg Except.ok (Bool.eq_iff_iff.mpr ?_)
      rw [beq_iff_eq, ← BitVec.toNat_inj]
      by_cases set : testBit b.val index = true
      · rw [if_pos set] at single
        exact iff_of_true (Int.ofNat_inj.mp single) set
      · rw [if_neg set] at single
        refine iff_of_false (fun one => ?_) set
        rw [Int.ofNat_inj.mp (single.trans Int.natCast_zero.symm)] at one
        cases one

/-- A slice is read from the payload. -/
theorem slice_eq (holds : Holds b.val) (hi lo : Nat) :
    slice b hi lo = .ofExcept (b.slice hi lo) := by
  unfold slice Bits.slice
  split
  · rfl
  · cases declared : checkWidth (hi - lo) with
    | error cause => rfl
    | ok _ =>
        have narrow := (checkWidth_eq_ok_iff.mp declared).2
        obtain ⟨low, masked, masks⟩ := mask_eq narrow
        split
        · rfl
        · next within =>
            rw [shiftRight_eq _ (by omega), masked]
            have content := toNat_masked holds lo narrow masks
            have fits := (field_bounds b.val lo (hi - lo)).2
            rw [← content, pow_eq_natCast, Int.ofNat_lt] at fits
            rw [← content, ← toInt_of_narrow narrow (Nat.le_of_lt fits)]
            exact unsigned_eq _ _

/-- The digits are those of the payload. -/
theorem binary_eq (holds : Holds b.val) (narrow : b.width ≤ widest) : binary b = .ok b.binary := by
  unfold binary Bits.binary
  split
  · have whole : b.val / Int.pow 2 0 = b.val := Int.ediv_one b.val
    rw [ofInt, BitVec.toNat_ofInt, field, whole, pow_eq_natCast payloadWidth]
  · obtain ⟨low, masked, masks⟩ := mask_eq narrow
    have content := toNat_masked holds 0 narrow masks
    rw [BitVec.sshiftRight_zero] at content
    rw [masked, ← content]
    rfl

/-- A shift makes room for the masked part. -/
theorem toNat_append {acc low : Word} {part : Nat} (fits : acc.toNat < 2 ^ width) (holds : Holds n)
    (narrow : width + part ≤ widest) (masks : low.toNat = 2 ^ part - 1) :
    ((acc <<< part ||| (ofInt n &&& low)).toNat : Int) =
        acc.toNat * Int.pow 2 part + field n 0 part ∧
      (acc <<< part ||| (ofInt n &&& low)).toNat < 2 ^ (width + part) := by
  have content := toNat_masked holds 0 (show part ≤ widest by omega) masks
  rw [BitVec.sshiftRight_zero] at content
  have below := (field_bounds n 0 part).2
  rw [← content, pow_eq_natCast, Int.ofNat_lt] at below
  have room : acc.toNat * 2 ^ part + (ofInt n &&& low).toNat < 2 ^ (width + part) := by
    rw [Nat.pow_add]
    calc acc.toNat * 2 ^ part + (ofInt n &&& low).toNat
        < acc.toNat * 2 ^ part + 2 ^ part := Nat.add_lt_add_left below _
      _ = (acc.toNat + 1) * 2 ^ part := (Nat.succ_mul _ _).symm
      _ ≤ 2 ^ width * 2 ^ part := Nat.mul_le_mul_right _ fits
  have joined : (acc <<< part ||| (ofInt n &&& low)).toNat =
      acc.toNat * 2 ^ part + (ofInt n &&& low).toNat := by
    have bound := natPow_lt narrow
    rw [BitVec.toNat_or, BitVec.toNat_shiftLeft, Nat.mod_eq_of_lt (by rw [Nat.shiftLeft_eq]; omega),
      ← Nat.shiftLeft_add_eq_or_of_lt below, Nat.shiftLeft_eq]
  rw [joined, ← content, pow_eq_natCast]
  exact ⟨by push_cast; rfl, room⟩

/-- The part carries no integer that its payload does not hold. -/
def Fits (part : Bits) : Prop := part.width ≤ widest ∧ (part.width ≠ 0 → Holds part.val)

theorem concatFrom_eq {acc : Word} {parts : List Bits} (fits : acc.toNat < 2 ^ width)
    (narrow : width ≤ widest) (all : ∀ part ∈ parts, Fits part) :
    concatFrom acc width parts = .ofExcept (Bits.concatFrom acc.toNat width parts) := by
  induction parts generalizing acc width with
  | nil =>
      rw [concatFrom, unsigned_eq, toInt_of_narrow narrow (Nat.le_of_lt fits)]
      rfl
  | cons part rest ih =>
      obtain ⟨slim, holds⟩ := all part List.mem_cons_self
      rw [concatFrom, Bits.concatFrom]
      split
      · rfl
      · next sized =>
          have few : ¬countLimit ≤ width + part.width := by
            unfold widest at narrow slim
            unfold countLimit
            omega
          rw [addCounts, if_neg few]
          cases declared : checkWidth (width + part.width) with
          | error cause => simp only [Attempt.ofExcept, bind, Except.bind, declared]
          | ok _ =>
              have narrow' := (checkWidth_eq_ok_iff.mp declared).2
              obtain ⟨low, masked, masks⟩ := mask_eq slim
              obtain ⟨content, fits'⟩ := toNat_append fits (holds sized) narrow' masks
              have rest := ih fits' narrow' fun part listed =>
                all part (List.mem_cons_of_mem _ listed)
              rw [content] at rest
              rw [shiftLeft_eq _ (Nat.lt_of_succ_lt (lt_payloadWidth slim)), masked]
              simp only [Attempt.ofExcept, bind, Except.bind, declared]
              exact rest

/-- Joined payloads make up the joined vector. -/
theorem concat_eq {parts : List Bits} (all : ∀ part ∈ parts, Fits part) :
    concat parts = .ofExcept (Bits.concat parts) :=
  concatFrom_eq (by decide) (Nat.zero_le _) all

end Word

/-! ## Vectors with a width -/

/-- What has a width carries an integer that a payload holds. -/
theorem Bits.Built.holds {b : Bits} (built : b.Built) (sized : b.width ≠ 0) : Word.Holds b.val := by
  cases built.shape with
  | unsized _ _ width => exact absurd width sized
  | @sized min max least most enough narrow =>
      have inside := built.inRange min max least most
      have bound : Int.pow 2 b.width ≤ Int.pow 2 widest := pow_le_pow narrow
      have half : Int.pow 2 (b.width - 1) ≤ Int.pow 2 widest :=
        pow_le_pow (Nat.le_trans (Nat.sub_le _ _) narrow)
      have payload : Int.pow 2 widest ≤ greatestPayload ∧ leastPayload ≤ -(Int.pow 2 widest) := by
        decide
      obtain ⟨-, enough⟩ := enough
      unfold Word.Holds
      split at enough <;> omega

theorem Bits.Built.fitsWord {b : Bits} (built : b.Built) : Word.Fits b :=
  ⟨built.narrow, built.holds⟩

end DeltaCycle
