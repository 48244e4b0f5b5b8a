import DeltaCycle.Proofs.BitPatterns
import DeltaCycle.Proofs.RangeWidths

/-!
# The shape of vectors

Every vector that comes about is either without bounds and width, or it carries an integer of its
range, and its width suffices for that range. So each integer of the range can be read back from as
many low bits as the vector has. Updates change the integer alone.
-/

set_option autoImplicit false

namespace DeltaCycle

namespace Bits

variable {b r : Bits} {n val content : Int} {lo hi width index : Nat} {bit : Bool}

/-! ## What the operations give -/

theorem signed_spec (built : signed val width = .ok b) :
    checkWidth width = .ok () ∧ b.InRange ∧
      b = ⟨val, some (-(Int.pow 2 (width - 1))), some (Int.pow 2 (width - 1)), width⟩ := by
  unfold signed at built
  cases declared : checkWidth width with
  | error cause => simp [declared] at built
  | ok _ =>
      simp only [declared] at built
      obtain ⟨rfl, inRange⟩ := checked_eq built
      exact ⟨rfl, inRange, rfl⟩

theorem slice_spec (sliced : b.slice hi lo = .ok r) :
    unsigned (field b.val lo (hi - lo)) (hi - lo) = .ok r := by
  unfold slice at sliced
  split at sliced
  · cases sliced
  · split at sliced
    · cases sliced
    · split at sliced
      · cases sliced
      · exact sliced

/-- A bit as the content of a field. -/
def ofBit (bit : Bool) : Int := if bit then 1 else 0

theorem overwrite_spec (written : b.overwrite lo width content = .ok r) :
    r = { b with val := b.normalize (overwritten b.val lo width content) } :=
  (withVal_eq written).1

theorem withBit_spec (written : b.withBit index bit = .ok r) :
    index + 1 < payloadWidth ∧
      r = { b with val := b.normalize (overwritten b.val index 1 (ofBit bit)) } := by
  unfold withBit at written
  split at written
  · cases written
  · next addressable => exact ⟨Nat.lt_of_not_le addressable, overwrite_spec written⟩

theorem withSlice_spec (written : b.withSlice hi lo content = .ok r) :
    lo < hi ∧ hi < payloadWidth ∧ checkWidth (hi - lo) = .ok () ∧
      (0 ≤ content ∧ content < Int.pow 2 (hi - lo)) ∧
        r = { b with val := b.normalize (overwritten b.val lo (hi - lo) content) } := by
  unfold withSlice at written
  split at written
  · cases written
  · next addressable =>
      split at written
      · cases written
      · next declared =>
          split at written
          · cases written
          · exact ⟨by omega, by omega, declared, by omega, overwrite_spec written⟩

/-- What is joined is an unsigned vector. -/
theorem concatFrom_spec {acc : Int} {parts : List Bits}
    (joined : concatFrom acc width parts = .ok r) :
    ∃ val width, unsigned val width = .ok r := by
  induction parts generalizing acc width with
  | nil => exact ⟨acc, width, joined⟩
  | cons part rest ih =>
      unfold concatFrom at joined
      split at joined
      · cases joined
      · split at joined
        · cases joined
        · exact ih joined

/-! ## Bounds and widths -/

/-- A vector has neither bounds nor width, or its width suffices for the range between its bounds
and is none of those that are refused. -/
inductive Shape (b : Bits) : Prop where
  | unsized (least : b.min = none) (most : b.max = none) (width : b.width = 0)
  | sized {min max : Int} (least : b.min = some min) (most : b.max = some max)
      (enough : Suffices min max b.width) (narrow : b.width ≤ widest)

/-- Only bounds and width tell the shape. -/
theorem Shape.withVal (shape : b.Shape) (val : Int) : ({ b with val } : Bits).Shape := by
  cases shape with
  | unsized least most width => exact .unsized least most width
  | sized least most enough narrow => exact .sized least most enough narrow

theorem shape_of_unsigned (built : unsigned val width = .ok b) : b.Shape := by
  obtain ⟨declared, rfl⟩ := unsigned_spec built
  obtain ⟨sized, narrow⟩ := checkWidth_eq_ok_iff.mp declared
  exact .sized rfl rfl ⟨sized, Int.le_refl _⟩ narrow

theorem shape_of_signed (built : signed val width = .ok b) : b.Shape := by
  obtain ⟨declared, -, rfl⟩ := signed_spec built
  obtain ⟨sized, narrow⟩ := checkWidth_eq_ok_iff.mp declared
  have half := pow_pos (width - 1)
  refine .sized rfl rfl ⟨sized, ?_⟩ narrow
  rw [if_neg (by omega)]
  exact ⟨Int.le_refl _, Int.le_refl _⟩

theorem shape_of_ofRange {min max : Int} (built : ofRange val min max = .ok b) : b.Shape := by
  obtain ⟨inside, -, narrow, rfl⟩ := ofRange_eq_ok_iff.mp built
  have range : min < max := by omega
  have reaches : 0 < max := Int.lt_of_not_ge fun below =>
    Nat.not_lt.mpr narrow (widest_lt_widthOfRange range below)
  exact .sized rfl rfl (suffices_widthOfRange range reaches) narrow

theorem Built.shape (built : b.Built) : b.Shape := by
  induction built with
  | ofRange built => exact shape_of_ofRange built
  | unsigned built => exact shape_of_unsigned built
  | signed built => exact shape_of_signed built
  | unbounded val => exact .unsized rfl rfl rfl
  | withVal _ built ih =>
      rw [(withVal_eq built).1]
      exact ih.withVal _
  | withBit _ built ih =>
      rw [(withBit_spec built).2]
      exact ih.withVal _
  | withSlice _ built ih =>
      obtain ⟨-, -, -, -, rfl⟩ := withSlice_spec built
      exact ih.withVal _
  | slice built => exact shape_of_unsigned (slice_spec built)
  | concat built =>
      obtain ⟨val, width, built⟩ := concatFrom_spec built
      exact shape_of_unsigned built

theorem Shape.narrow (shape : b.Shape) : b.width ≤ widest := by
  cases shape with
  | unsized _ _ width => exact width ▸ Nat.zero_le _
  | sized _ _ _ narrow => exact narrow

/-- No vector is wider than the widest. -/
theorem Built.narrow (built : b.Built) : b.width ≤ widest := built.shape.narrow

/-! ## Reading low bits -/

/-- The natural number with these bits. -/
def ofBits (bits : Nat → Bool) : Nat → Int
  | 0 => 0
  | width + 1 => ofBits bits width + if bits width then Int.pow 2 width else 0

/-- The integer that a pattern stands for: the natural number with these bits, or the one in two's
complement, where the topmost bit counts against the others. -/
def reading (twosComplement : Bool) (bits : Nat → Bool) (width : Nat) : Int :=
  ofBits bits width -
    if twosComplement && bits (width - 1) then Int.pow 2 width else 0

theorem ofBits_testBit (n : Int) (width : Nat) :
    ofBits (testBit n) width = n % Int.pow 2 width := by
  induction width with
  | zero => exact (Int.emod_one n).symm
  | succ width ih =>
      rw [ofBits, ih, emod_pow_add, field_one, mul_ite, mul_one, mul_zero]

theorem reading_of_natural (fits : 0 ≤ n ∧ n < Int.pow 2 width) :
    reading false (testBit n) width = n := by
  rw [reading, ofBits_testBit, Int.emod_eq_of_lt fits.1 fits.2]
  exact Int.sub_zero n

theorem reading_of_signed (sized : 1 ≤ width)
    (fits : -(Int.pow 2 (width - 1)) ≤ n ∧ n < Int.pow 2 (width - 1)) :
    reading true (testBit n) width = n := by
  have twice := pow_eq_twice sized
  have half := pow_pos (width - 1)
  rw [reading, ofBits_testBit, testBit_of_fits fits (Nat.le_refl _), Bool.true_and]
  by_cases negative : n < 0
  · have wrapped : n % Int.pow 2 width = n + Int.pow 2 width := by
      rw [← Int.add_emod_right, Int.emod_eq_of_lt (by omega) (by omega)]
    rw [decide_eq_true negative, wrapped]
    exact Int.add_sub_cancel n _
  · rw [decide_eq_false negative, Int.emod_eq_of_lt (by omega) (by omega)]
    exact Int.sub_zero n

/-- A width suffices for a range if its integers can be read back from so many low bits. -/
theorem Suffices.reading {min max : Int} (enough : Suffices min max width) (above : min ≤ n)
    (below : n < max) : reading (decide (min < 0)) (testBit n) width = n := by
  obtain ⟨sized, enough⟩ := enough
  by_cases natural : 0 ≤ min
  · rw [if_pos natural] at enough
    rw [decide_eq_false (Int.not_lt.mpr natural)]
    exact reading_of_natural ⟨by omega, by omega⟩
  · rw [if_neg natural] at enough
    rw [decide_eq_true (Int.lt_of_not_ge natural)]
    exact reading_of_signed sized ⟨by omega, by omega⟩

/-- Every vector is well formed: it has neither bounds nor width, or a width that is allowed and
bounds around its integer, and each integer between the bounds can be read back from as many low
bits. What changes the integer of a vector, or bits of it, keeps bounds and width. -/
theorem every_vector_is_well_formed (built : b.Built) :
    ((b.min = none ∧ b.max = none ∧ b.width = 0) ∨
        ∃ min max, b.min = some min ∧ b.max = some max ∧ 1 ≤ b.width ∧ b.width ≤ widest ∧
          (min ≤ b.val ∧ b.val < max) ∧
            ∀ n, min ≤ n → n < max → reading (decide (min < 0)) (testBit n) b.width = n) ∧
      ∀ r, (∃ val, b.withVal val = .ok r) ∨ (∃ index bit, b.withBit index bit = .ok r) ∨
          (∃ hi lo content, b.withSlice hi lo content = .ok r) →
        r.min = b.min ∧ r.max = b.max ∧ r.width = b.width := by
  constructor
  · cases built.shape with
    | unsized least most width => exact .inl ⟨least, most, width⟩
    | @sized min max least most enough narrow =>
        refine .inr ⟨min, max, least, most, enough.1, narrow, built.inRange min max least most, ?_⟩
        exact fun n above below => enough.reading above below
  · rintro r (⟨val, written⟩ | ⟨index, bit, written⟩ | ⟨hi, lo, content, written⟩)
    · rw [(withVal_eq written).1]
      exact ⟨rfl, rfl, rfl⟩
    · rw [(withBit_spec written).2]
      exact ⟨rfl, rfl, rfl⟩
    · obtain ⟨-, -, -, -, rfl⟩ := withSlice_spec written
      exact ⟨rfl, rfl, rfl⟩

/-- A vector of a range across zero, with its upper half overwritten: bounds and width stay, and
four bits are enough to read back the twelve integers of the range. -/
theorem twelve_integers_are_read_back_from_four_bits :
    ∃ b r, ofRange 3 (-4) 8 = .ok b ∧ b.withSlice 4 2 3 = .ok r ∧ r.val = -1 ∧
      (r.min = some (-4) ∧ r.max = some 8 ∧ r.width = 4) ∧
        ∀ n, -4 ≤ n → n < 8 → reading true (testBit n) 4 = n := by
  have built : ofRange 3 (-4) 8 = .ok ⟨3, some (-4), some 8, 4⟩ := rfl
  have written : Bits.withSlice ⟨3, some (-4), some 8, 4⟩ 4 2 3 =
      .ok ⟨-1, some (-4), some 8, 4⟩ := rfl
  obtain ⟨unsized | ⟨min, max, least, most, -, -, -, reads⟩, updates⟩ :=
    every_vector_is_well_formed (.ofRange built)
  · cases unsized.1
  · cases least
    cases most
    exact ⟨_, _, built, written, rfl, updates _ (.inr (.inr ⟨4, 2, 3, written⟩)), reads⟩

end Bits

end DeltaCycle
