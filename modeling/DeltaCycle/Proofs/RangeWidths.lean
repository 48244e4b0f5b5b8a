import DeltaCycle.Proofs.Widths

/-!
# The width of a range

A width suffices for a range if it has a pattern for each integer of it. A range is given the least
width that suffices, unless all its integers are negative or it is that of minus one and zero: the
payload of a negative number has no leading zeros to be left out, and the greatest integer of a
range is given a bit of its own besides the sign.
-/

set_option autoImplicit false

namespace DeltaCycle

namespace Bits

/-- So many bits have a pattern for each integer of a range: as natural numbers if none of them is
negative, and in two's complement otherwise. -/
def Suffices (min max : Int) (width : Nat) : Prop :=
  1 ≤ width ∧
    if 0 ≤ min then max ≤ Int.pow 2 width
    else -(Int.pow 2 (width - 1)) ≤ min ∧ max ≤ Int.pow 2 (width - 1)

instance (min max : Int) (width : Nat) : Decidable (Suffices min max width) :=
  inferInstanceAs (Decidable (_ ∧ _))

variable {min max val : Int} {width : Nat}

/-! ## The width that a range is given -/

theorem natMax_le_iff {a b c : Nat} : Nat.max a b ≤ c ↔ a ≤ c ∧ b ≤ c := Nat.max_le

theorem widthOfRange_pos (min max : Int) : 1 ≤ widthOfRange min max := by
  unfold widthOfRange
  split
  · exact Nat.le_trans (Nat.le_add_left 1 _) (Nat.le_max_left ..)
  · exact Nat.le_max_right ..

/-- The payload of a negative number takes all bits, and the sign takes one more. -/
theorem widest_lt_widthOfRange (range : min < max) (negative : max ≤ 0) :
    widest < widthOfRange min max := by
  have all : significantBits (max - 1) = payloadWidth := if_pos (by omega)
  unfold widthOfRange
  rw [if_pos (by omega), all]
  exact Nat.lt_of_lt_of_le (by decide) (Nat.le_max_left ..)

/-! ## The least width -/

/-- A width is at least the one that a range is given exactly if it suffices for the range. -/
theorem widthOfRange_le_iff (range : min < max) (reaches : 0 < max)
    (common : ¬(min = -1 ∧ max = 1)) (width : Nat) :
    widthOfRange min max ≤ width ↔ Suffices min max width := by
  have upper := significantBits_le_iff (show 0 ≤ max - 1 by omega)
  unfold widthOfRange Suffices
  by_cases negative : min < 0
  · have lower := significantBits_le_iff (show 0 ≤ -min - 1 by omega)
    rw [if_pos negative, if_neg (Int.not_le.mpr negative)]
    cases width with
    | zero => exact iff_of_false (fun le => by simp at le) (fun enough => by simp at enough)
    | succ rest =>
        have upper := upper rest
        have lower := lower rest
        have single : rest = 0 → Int.pow 2 rest = 1 := fun none => none ▸ rfl
        rw [natMax_le_iff, Nat.succ_le_succ_iff, Nat.succ_le_succ_iff, natMax_le_iff,
          Nat.add_sub_cancel]
        omega
  · have upper := upper width
    rw [if_neg negative, if_pos (Int.not_lt.mp negative)]
    rw [natMax_le_iff]
    omega

/-- The least width that suffices for the range of minus one and zero is one, and it is given two.
-/
theorem isLeast_widthOfRange (range : min < max) (reaches : 0 < max) :
    ∃ width, IsLeast {width | Suffices min max width} width ∧
      widthOfRange min max = if min = -1 ∧ max = 1 then 2 else width := by
  by_cases sole : min = -1 ∧ max = 1
  · obtain ⟨rfl, rfl⟩ := sole
    exact ⟨1, ⟨by decide, fun width enough => enough.1⟩, by decide⟩
  · have least := widthOfRange_le_iff range reaches sole
    refine ⟨widthOfRange min max, ⟨(least _).mp (Nat.le_refl _), fun width enough => ?_⟩,
      (if_neg sole).symm⟩
    exact (least width).mpr enough

/-- The width that a range is given suffices for it. -/
theorem suffices_widthOfRange (range : min < max) (reaches : 0 < max) :
    Suffices min max (widthOfRange min max) := by
  by_cases sole : min = -1 ∧ max = 1
  · obtain ⟨rfl, rfl⟩ := sole
    decide
  · exact (widthOfRange_le_iff range reaches sole _).mp (Nat.le_refl _)

/-! ## Vectors over a range -/

theorem checkWidth_eq_ok_iff : checkWidth width = .ok () ↔ 1 ≤ width ∧ width ≤ widest := by
  unfold checkWidth
  split
  · exact iff_of_false nofun (by omega)
  · exact iff_of_true rfl (by omega)

theorem checked_eq_ok_iff {b : Bits} :
    checked ⟨val, some min, some max, width⟩ = .ok b ↔
      (min ≤ val ∧ val < max) ∧ b = ⟨val, some min, some max, width⟩ := by
  constructor
  · intro checks
    obtain ⟨rfl, inside⟩ := checked_eq checks
    exact ⟨inside min max rfl rfl, rfl⟩
  · rintro ⟨inside, rfl⟩
    unfold checked checkRange
    simp only [if_neg (show ¬(val < min ∨ max ≤ val) by omega)]

theorem ofExcept_eq_ok_iff {ε α : Type} {result : Except ε α} {answer : α} :
    Attempt.ofExcept result = .ok answer ↔ result = .ok answer := by
  cases result with
  | error cause => exact iff_of_false nofun nofun
  | ok answer' => rw [Attempt.ofExcept, Except.ok.injEq, Except.ok.injEq]

theorem ofRange_eq_ok_iff {b : Bits} :
    ofRange val min max = .ok b ↔
      (min ≤ val ∧ val < max) ∧ min ≠ leastPayload ∧ widthOfRange min max ≤ widest ∧
        b = ⟨val, some min, some max, widthOfRange min max⟩ := by
  have positive := widthOfRange_pos min max
  unfold ofRange
  split
  · exact iff_of_false nofun (by omega)
  · split
    · next least => exact iff_of_false nofun fun ⟨_, other, _⟩ => other least
    · next other =>
        rw [and_iff_right other]
        dsimp only
        cases declared : checkWidth (widthOfRange min max) with
        | error cause =>
            refine iff_of_false nofun fun ⟨_, narrow, _⟩ => ?_
            rw [checkWidth_eq_ok_iff.mpr ⟨positive, narrow⟩] at declared
            cases declared
        | ok _ =>
            rw [ofExcept_eq_ok_iff, checked_eq_ok_iff,
              and_iff_right (checkWidth_eq_ok_iff.mp declared).2]

theorem ofRange_eq_undefined_iff :
    ofRange val min max = .error .undefined ↔ min < max ∧ min = leastPayload := by
  unfold ofRange
  split
  · exact iff_of_false nofun (by omega)
  · next range =>
      split
      · next least => exact iff_of_true rfl ⟨by omega, least⟩
      · next other =>
          refine iff_of_false ?_ fun ⟨_, least⟩ => other least
          dsimp only
          cases checkWidth (widthOfRange min max) with
          | error cause => exact nofun
          | ok _ =>
              cases checked ⟨val, some min, some max, widthOfRange min max⟩ <;> exact nofun

/-- The least payload needs more bits than a vector may have. -/
theorem Suffices.ne_leastPayload (enough : Suffices min max width) (narrow : width ≤ widest) :
    min ≠ leastPayload := by
  rintro rfl
  obtain ⟨-, enough⟩ := enough
  rw [if_neg (by decide)] at enough
  exact Int.not_le.mpr (Int.neg_lt_neg (pow_lt_pow (show width - 1 < 127 by
    unfold widest at narrow
    omega))) enough.1

/-- The range of a signed vector is given its width. -/
theorem widthOfRange_signed (sized : 2 ≤ width) :
    widthOfRange (-(Int.pow 2 (width - 1))) (Int.pow 2 (width - 1)) = width := by
  have half : (2 : Int) ≤ Int.pow 2 (width - 1) := pow_le_pow (show 1 ≤ width - 1 by omega)
  have least (width' : Nat) :
      widthOfRange (-(Int.pow 2 (width - 1))) (Int.pow 2 (width - 1)) ≤ width' ↔
        Suffices (-(Int.pow 2 (width - 1))) (Int.pow 2 (width - 1)) width' :=
    widthOfRange_le_iff (by omega) (by omega) (by omega) width'
  refine Nat.le_antisymm ((least width).mpr ?_) (Nat.le_of_not_lt fun less => ?_)
  · rw [Suffices, if_neg (by omega)]
    exact ⟨by omega, Int.le_refl _, Int.le_refl _⟩
  · obtain ⟨-, enough⟩ := (least (width - 1)).mp (Nat.le_sub_one_of_lt less)
    rw [if_neg (by omega)] at enough
    exact Int.not_le.mpr (pow_lt_pow (show width - 1 - 1 < width - 1 by omega)) enough.2

theorem ofRange_signed (val : Int) (sized : 2 ≤ width) (payload : width < payloadWidth) :
    ofRange val (-(Int.pow 2 (width - 1))) (Int.pow 2 (width - 1)) =
      .ofExcept (signed val width) := by
  have half := pow_pos (width - 1)
  have least : leastPayload < -(Int.pow 2 (width - 1)) :=
    Int.neg_lt_neg (pow_lt_pow (show width - 1 < 127 by unfold payloadWidth at payload; omega))
  unfold ofRange signed
  rw [if_neg (by omega), if_neg (by omega), widthOfRange_signed sized]
  dsimp only
  cases checkWidth width <;> rfl

/-- The range of an unsigned vector is given its width. -/
theorem widthOfRange_unsigned (sized : 1 ≤ width) : widthOfRange 0 (Int.pow 2 width) = width := by
  have positive := pow_pos width
  have least (width' : Nat) :
      widthOfRange 0 (Int.pow 2 width) ≤ width' ↔ Suffices 0 (Int.pow 2 width) width' :=
    widthOfRange_le_iff positive positive (by omega) width'
  refine Nat.le_antisymm ((least width).mpr ⟨sized, Int.le_refl _⟩) ?_
  refine Nat.le_of_not_lt fun less => ?_
  obtain ⟨-, enough⟩ := (least (width - 1)).mp (Nat.le_sub_one_of_lt less)
  exact Int.not_le.mpr (pow_lt_pow (show width - 1 < width by omega)) enough

theorem ofRange_unsigned (val : Int) (sized : 1 ≤ width) :
    ofRange val 0 (Int.pow 2 width) = .ofExcept (unsigned val width) := by
  have positive := pow_pos width
  unfold ofRange unsigned
  rw [if_neg (by omega), if_neg (by decide), widthOfRange_unsigned sized]
  dsimp only
  cases checkWidth width <;> rfl

/-- A range with a natural number in it gets the least width that suffices, but for the one of minus
one and zero, which gets two bits. Ranges of negative numbers alone are refused, and the least
payload is no end of any. -/
theorem a_range_with_a_natural_number_gets_the_least_width (val min max : Int) :
    (ofRange val min max = .error .undefined ↔ min < max ∧ min = leastPayload) ∧
      (∀ b, ofRange val min max = .ok b ↔
        (min ≤ val ∧ val < max) ∧ 0 < max ∧
          ∃ width ≤ widest, IsLeast {width | Suffices min max width} width ∧
            b = ⟨val, some min, some max, if min = -1 ∧ max = 1 then 2 else width⟩) ∧
      ∀ width, 2 ≤ width → width < payloadWidth →
        ofRange val (-(Int.pow 2 (width - 1))) (Int.pow 2 (width - 1)) =
          .ofExcept (signed val width) := by
  refine ⟨ofRange_eq_undefined_iff, ?_, fun width => ofRange_signed val⟩
  intro b
  rw [ofRange_eq_ok_iff]
  refine and_congr_right fun inside => ?_
  have range : min < max := by omega
  by_cases reaches : 0 < max
  · obtain ⟨width, least, given⟩ := isLeast_widthOfRange range reaches
    rw [and_iff_right reaches, given]
    constructor
    · rintro ⟨-, narrow, rfl⟩
      refine ⟨width, ?_, least, rfl⟩
      split at narrow
      · next sole =>
          obtain ⟨rfl, rfl⟩ := sole
          exact Nat.le_trans (least.2 (by decide : Suffices (-1) 1 1)) (by decide)
      · exact narrow
    · rintro ⟨width', narrow, least', rfl⟩
      obtain rfl := least'.unique least
      refine ⟨Suffices.ne_leastPayload least.1 narrow, ?_, rfl⟩
      split
      · decide
      · exact narrow
  · refine iff_of_false (fun ⟨_, narrow, _⟩ => ?_) fun ⟨reaches', _⟩ => reaches reaches'
    exact Nat.not_lt.mpr narrow (widest_lt_widthOfRange range (Int.not_lt.mp reaches))

/-- Three bits suffice for the four integers below zero, and they are refused for a width of 129. -/
theorem a_range_of_negative_numbers_is_refused :
    ofRange (-1) (-4) 0 = .error (.refused (.badWidth 129 widest)) ∧
      IsLeast {width | Suffices (-4) 0 width} 3 := by
  refine ⟨by decide, by decide, fun width enough => ?_⟩
  by_contra less
  obtain rfl | rfl | rfl : width = 0 ∨ width = 1 ∨ width = 2 := by omega
  all_goals exact absurd enough (by decide)

/-- A range across zero, and the range of four bits. -/
theorem twelve_integers_get_four_bits :
    ofRange 3 (-4) 8 = .ok ⟨3, some (-4), some 8, 4⟩ ∧
      ofRange 3 (-8) 8 = .ofExcept (signed 3 4) := by
  obtain ⟨-, accepts, twoSided⟩ := a_range_with_a_natural_number_gets_the_least_width 3 (-4) 8
  have least : IsLeast {width | Suffices (-4) 8 width} 4 := by
    refine ⟨by decide, fun width enough => ?_⟩
    by_contra less
    obtain rfl | rfl | rfl | rfl : width = 0 ∨ width = 1 ∨ width = 2 ∨ width = 3 := by omega
    all_goals exact absurd enough (by decide)
  exact ⟨(accepts _).mpr ⟨by decide, by decide, 4, by decide, least, rfl⟩,
    twoSided 4 (by decide) (by decide)⟩

end Bits

end DeltaCycle
