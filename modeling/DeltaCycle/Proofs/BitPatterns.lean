import DeltaCycle.Proofs.Widths

/-!
# Bit patterns

The low bits of an integer say what it is modulo a power of two, and where it is in the range of a
width they say which integer it is. The bits of an integer in which a field was overwritten are
those of the new content in the field, and the old ones elsewhere.
-/

set_option autoImplicit false

namespace DeltaCycle

namespace Bits

variable {n m content : Int} {lo width j : Nat}

theorem pow_ne_zero (width : Nat) : Int.pow 2 width ≠ 0 := Int.ne_of_gt (pow_pos width)

theorem pow_eq_twice (sized : 1 ≤ width) : Int.pow 2 width = Int.pow 2 (width - 1) * 2 := by
  rw [← Nat.sub_add_cancel sized, pow_add, Nat.add_sub_cancel]
  rfl

/-! ## Bits and remainders -/

theorem testBit_ediv (n : Int) (lo j : Nat) :
    testBit (n / Int.pow 2 lo) j = testBit n (lo + j) := by
  unfold testBit
  rw [Int.ediv_ediv_of_nonneg (Int.le_of_lt (pow_pos lo)), ← pow_add]

theorem testBit_emod (below : j < width) : testBit (n % Int.pow 2 width) j = testBit n j := by
  obtain ⟨more, rfl⟩ := Nat.exists_eq_add_of_lt below
  have whole : n = n % Int.pow 2 (j + more + 1) +
      Int.pow 2 j * (2 * (Int.pow 2 more * (n / Int.pow 2 (j + more + 1)))) := by
    have split := Int.emod_add_mul_ediv n (Int.pow 2 (j + more + 1))
    have two : Int.pow 2 1 = 2 := rfl
    rw [pow_add (j + more), pow_add j, two] at split ⊢
    linarith
  unfold testBit
  conv_rhs => rw [whole, Int.add_mul_ediv_left _ _ (pow_ne_zero j), Int.add_mul_emod_self_left]

/-- A remainder of more bits has the field of these bits on top. -/
theorem emod_pow_add (n : Int) (lo width : Nat) :
    n % Int.pow 2 (lo + width) = n % Int.pow 2 lo + Int.pow 2 lo * field n lo width := by
  unfold field
  rw [Int.emod_def n (Int.pow 2 (lo + width)), Int.emod_def n (Int.pow 2 lo), Int.emod_def (_ / _),
    Int.ediv_ediv_of_nonneg (Int.le_of_lt (pow_pos lo)), ← pow_add, pow_add lo]
  ring

theorem field_one (n : Int) (lo : Nat) : field n lo 1 = if testBit n lo then 1 else 0 := by
  have two : Int.pow 2 1 = 2 := rfl
  unfold field testBit
  rw [two]
  rcases Int.emod_two_eq (n / Int.pow 2 lo) with even | odd
  · rw [even]
    rfl
  · rw [odd]
    rfl

/-- The low bits tell the remainder. -/
theorem emod_eq_emod_iff :
    n % Int.pow 2 width = m % Int.pow 2 width ↔ ∀ j < width, testBit n j = testBit m j := by
  constructor
  · intro same j below
    rw [← testBit_emod below, same, testBit_emod below]
  · intro same
    induction width with
    | zero => exact (Int.emod_one n).trans (Int.emod_one m).symm
    | succ width ih =>
        rw [emod_pow_add, emod_pow_add, field_one, field_one, same width (Nat.lt_succ_self width),
          ih fun j below => same j (Nat.lt_succ_of_lt below)]

theorem field_eq_iff (fits : 0 ≤ content ∧ content < Int.pow 2 width) :
    field n lo width = content ↔ ∀ j < width, testBit n (lo + j) = testBit content j := by
  have small : content = content % Int.pow 2 width := (Int.emod_eq_of_lt fits.1 fits.2).symm
  simp only [← testBit_ediv]
  rw [← emod_eq_emod_iff, ← small]
  rfl

/-! ## Overwritten fields -/

/-- An integer in which a field has got a new content. -/
def overwritten (n : Int) (lo width : Nat) (content : Int) : Int :=
  n - field n lo width * Int.pow 2 lo + content * Int.pow 2 lo

theorem overwritten_eq (n : Int) (lo width : Nat) (content : Int) :
    overwritten n lo width content =
      n / Int.pow 2 (lo + width) * Int.pow 2 (lo + width) +
        (content * Int.pow 2 lo + n % Int.pow 2 lo) := by
  have whole := Int.emod_add_mul_ediv n (Int.pow 2 (lo + width))
  rw [emod_pow_add] at whole
  unfold overwritten
  linarith

/-- What is appended below does not change what is above. -/
theorem append_ediv (fits : 0 ≤ content ∧ content < Int.pow 2 width) :
    (n * Int.pow 2 width + content) / Int.pow 2 width = n := by
  rw [Int.add_comm, Int.add_mul_ediv_right _ _ (pow_ne_zero width),
    Int.ediv_eq_zero_of_lt fits.1 fits.2, Int.zero_add]

theorem low_bounds (n : Int) (lo : Nat) : 0 ≤ n % Int.pow 2 lo ∧ n % Int.pow 2 lo < Int.pow 2 lo :=
  ⟨Int.emod_nonneg _ (pow_ne_zero lo), Int.emod_lt_of_pos _ (pow_pos lo)⟩

/-- The bits of the new content, and around it the old ones. -/
theorem testBit_overwritten (n : Int) (fits : 0 ≤ content ∧ content < Int.pow 2 width) (j : Nat) :
    testBit (overwritten n lo width content) j =
      if lo ≤ j ∧ j < lo + width then testBit content (j - lo) else testBit n j := by
  have low := low_bounds n lo
  by_cases under : j < lo
  · rw [if_neg (by omega)]
    refine emod_eq_emod_iff.mp ?_ j under
    have moved : overwritten n lo width content =
        n + Int.pow 2 lo * (content - field n lo width) := by
      unfold overwritten
      ring
    rw [moved, Int.add_mul_emod_self_left]
  · obtain ⟨j, rfl⟩ := Nat.exists_eq_add_of_le (Nat.le_of_not_lt under)
    by_cases inside : j < width
    · rw [if_pos (by omega), Nat.add_sub_cancel_left, ← testBit_ediv]
      refine emod_eq_emod_iff.mp ?_ j inside
      have joined : overwritten n lo width content =
          (content + Int.pow 2 width * (n / Int.pow 2 (lo + width))) * Int.pow 2 lo +
            n % Int.pow 2 lo := by
        rw [overwritten_eq, pow_add]
        ring
      rw [joined, append_ediv low, Int.add_mul_emod_self_left]
    · obtain ⟨j, rfl⟩ := Nat.exists_eq_add_of_le (Nat.le_of_not_lt inside)
      have bounds := append_bounds fits low
      rw [Nat.add_comm width lo] at bounds
      rw [if_neg (by omega), ← Nat.add_assoc, ← testBit_ediv, ← testBit_ediv, overwritten_eq,
        append_ediv bounds]

/-- A natural number that is overwritten within a width stays within it. -/
theorem overwritten_fits {most : Nat} (natural : 0 ≤ n ∧ n < Int.pow 2 most)
    (fits : 0 ≤ content ∧ content < Int.pow 2 width) (within : lo + width ≤ most) :
    0 ≤ overwritten n lo width content ∧ overwritten n lo width content < Int.pow 2 most := by
  obtain ⟨more, rfl⟩ := Nat.exists_eq_add_of_le within
  have above : 0 ≤ n / Int.pow 2 (lo + width) ∧ n / Int.pow 2 (lo + width) < Int.pow 2 more := by
    refine ⟨Int.ediv_nonneg natural.1 (Int.le_of_lt (pow_pos _)), ?_⟩
    rw [Nat.add_comm, pow_add] at natural
    exact Int.ediv_lt_of_lt_mul (pow_pos _) natural.2
  have bounds := append_bounds fits (low_bounds n lo)
  rw [Nat.add_comm width lo] at bounds
  rw [overwritten_eq, Nat.add_comm (lo + width) more]
  exact append_bounds above bounds

/-! ## Signs -/

/-- All bits from the width on are that of the sign. -/
theorem testBit_of_fits {half : Nat} (fits : -(Int.pow 2 half) ≤ n ∧ n < Int.pow 2 half)
    (beyond : half ≤ j) : testBit n j = decide (n < 0) := by
  have wide := pow_le_pow beyond
  unfold testBit
  by_cases negative : n < 0
  · rw [Int.ediv_eq_neg_one_of_neg_of_le negative (by omega), decide_eq_true negative]
    rfl
  · rw [Int.ediv_eq_zero_of_lt (by omega) (by omega), decide_eq_false negative]
    rfl

theorem bmod_fits (n : Int) (sized : 1 ≤ width) :
    -(Int.pow 2 (width - 1)) ≤ n.bmod (Nat.pow 2 width) ∧
      n.bmod (Nat.pow 2 width) < Int.pow 2 (width - 1) := by
  have whole : ((Nat.pow 2 width : Nat) : Int) = Int.pow 2 (width - 1) * 2 :=
    (pow_eq_natCast width).symm.trans (pow_eq_twice sized)
  have positive : 0 < Nat.pow 2 width := Nat.two_pow_pos width
  have least := Int.le_bmod (x := n) positive
  have most := Int.bmod_lt (x := n) positive
  omega

theorem bmod_emod (n : Int) (width : Nat) :
    n.bmod (Nat.pow 2 width) % Int.pow 2 width = n % Int.pow 2 width := by
  rw [pow_eq_natCast]
  exact Int.bmod_emod

theorem bmod_of_fits (sized : 1 ≤ width)
    (fits : -(Int.pow 2 (width - 1)) ≤ n ∧ n < Int.pow 2 (width - 1)) :
    n.bmod (Nat.pow 2 width) = n := by
  have whole : ((Nat.pow 2 width : Nat) : Int) = Int.pow 2 (width - 1) * 2 :=
    (pow_eq_natCast width).symm.trans (pow_eq_twice sized)
  exact Int.bmod_eq_of_le_mul_two (by omega) (by omega)

theorem bmod_congr (same : n % Int.pow 2 width = m % Int.pow 2 width) :
    n.bmod (Nat.pow 2 width) = m.bmod (Nat.pow 2 width) := by
  rw [pow_eq_natCast] at same
  rw [← Int.emod_bmod n, ← Int.emod_bmod m]
  exact congrArg (Int.bmod · (Nat.pow 2 width)) same

/-! ## Integers by their bits -/

theorem eq_of_testBit_natural (fits : 0 ≤ n ∧ n < Int.pow 2 width)
    (fits' : 0 ≤ m ∧ m < Int.pow 2 width) (same : ∀ j < width, testBit n j = testBit m j) :
    n = m := by
  rw [← Int.emod_eq_of_lt fits.1 fits.2, emod_eq_emod_iff.mpr same,
    Int.emod_eq_of_lt fits'.1 fits'.2]

theorem eq_of_testBit_signed (sized : 1 ≤ width)
    (fits : -(Int.pow 2 (width - 1)) ≤ n ∧ n < Int.pow 2 (width - 1))
    (fits' : -(Int.pow 2 (width - 1)) ≤ m ∧ m < Int.pow 2 (width - 1))
    (same : ∀ j < width, testBit n j = testBit m j) : n = m := by
  rw [← bmod_of_fits sized fits, bmod_congr (emod_eq_emod_iff.mpr same), bmod_of_fits sized fits']

end Bits

end DeltaCycle
