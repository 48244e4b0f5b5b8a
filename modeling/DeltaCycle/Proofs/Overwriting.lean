import DeltaCycle.Proofs.Shapes

/-!
# Overwriting bits

What is written to a bit or a slice of a vector is read back from it, and around it nothing changes.
A signed vector keeps only what is written below its width, for the bits from there on are those of
its sign.
-/

set_option autoImplicit false

namespace DeltaCycle

namespace Bits

variable {b r : Bits} {val content : Int} {lo hi width index j : Nat} {bit : Bool}

/-! ## Contents that fit -/

theorem withVal_of_fits {min max : Int} (least : b.min = some min) (most : b.max = some max)
    (inside : min ≤ val ∧ val < max) : b.withVal val = .ok { b with val } := by
  refine withVal_of_inRange fun min' max' least' most' => ?_
  cases least.symm.trans least'
  cases most.symm.trans most'
  exact inside

theorem ofBit_fits (bit : Bool) : 0 ≤ ofBit bit ∧ ofBit bit < Int.pow 2 1 := by
  cases bit <;> decide

theorem testBit_ofBit (bit : Bool) : testBit (ofBit bit) 0 = bit := by
  cases bit <;> decide

/-! ## The range of a signed vector -/

/-- A range that begins below zero lies in that of the two's complement of the width. -/
def Framed (b : Bits) : Prop :=
  ∀ min, b.min = some min → min < 0 → 1 ≤ b.width ∧ ∃ max, b.max = some max ∧
    -(Int.pow 2 (b.width - 1)) ≤ min ∧ max ≤ Int.pow 2 (b.width - 1)

theorem Built.framed (built : b.Built) : b.Framed := by
  intro min bound negative
  cases built.shape with
  | unsized least _ _ => cases bound.symm.trans least
  | @sized least max same most enough narrow =>
      cases bound.symm.trans same
      obtain ⟨sized, bounds⟩ := enough
      rw [if_neg (Int.not_le.mpr negative)] at bounds
      exact ⟨sized, max, most, bounds⟩

/-- A signed vector carries an integer of the two's complement of its width. -/
theorem Built.fits (built : b.Built) (signed : b.isSigned = true) :
    1 ≤ b.width ∧
      -(Int.pow 2 (b.width - 1)) ≤ b.val ∧ b.val < Int.pow 2 (b.width - 1) := by
  unfold isSigned at signed
  split at signed
  · next min least =>
      obtain ⟨sized, max, most, below, above⟩ :=
        built.framed min least (of_decide_eq_true signed)
      obtain ⟨lower, upper⟩ := built.inRange min max least most
      exact ⟨sized, by omega, by omega⟩
  · cases signed

/-- The bits from the width of a signed vector on are that of the sign. -/
theorem Built.sign (built : b.Built) (signed : b.isSigned = true) (beyond : b.width ≤ j) :
    testBit b.val j = testBit b.val (b.width - 1) := by
  obtain ⟨sized, fits⟩ := built.fits signed
  rw [testBit_of_fits fits (by omega), testBit_of_fits fits (Nat.le_refl _)]

/-- Reading a payload as a signed vector does leaves the bits below the width. -/
theorem testBit_normalize (b : Bits) (raw : Int) (seen : b.isSigned = true → j < b.width) :
    testBit (b.normalize raw) j = testBit raw j := by
  unfold normalize
  split
  · next signed => exact emod_eq_emod_iff.mp (bmod_emod raw b.width) j (seen signed.1)
  · rfl

/-- What is written beyond the width of a signed vector is lost. -/
theorem Built.normalize_beyond (built : b.Built) (signed : b.isSigned = true)
    (fits : 0 ≤ content ∧ content < Int.pow 2 width) (beyond : b.width ≤ lo) :
    b.normalize (overwritten b.val lo width content) = b.val := by
  obtain ⟨sized, bounds⟩ := built.fits signed
  have same : overwritten b.val lo width content % Int.pow 2 b.width =
      b.val % Int.pow 2 b.width := by
    refine emod_eq_emod_iff.mpr fun j below => ?_
    rw [testBit_overwritten _ fits, if_neg (by omega)]
  unfold normalize
  rw [if_pos ⟨signed, sized⟩, bmod_congr same, bmod_of_fits sized bounds]

/-! ## What is read back -/

theorem bit_congr {b' : Bits} (same : testBit r.val j = testBit b'.val j) : r.bit j = b'.bit j := by
  unfold Bits.bit
  rw [same]

/-- Below the width of a signed vector, and everywhere in the others, the field has the new content
and the bits around it are the old ones. -/
theorem bit_of_written (fits : 0 ≤ content ∧ content < Int.pow 2 width)
    (written : r = { b with val := b.normalize (overwritten b.val lo width content) })
    (seen : b.isSigned = true → j < b.width) :
    testBit r.val j =
      if lo ≤ j ∧ j < lo + width then testBit content (j - lo) else testBit b.val j := by
  rw [written, testBit_normalize b _ seen, testBit_overwritten _ fits]

/-- Around the field everything reads as before. -/
theorem bit_around (fits : 0 ≤ content ∧ content < Int.pow 2 width)
    (written : r = { b with val := b.normalize (overwritten b.val lo width content) })
    (elsewhere : j < lo ∨ lo + width ≤ j) (seen : b.isSigned = true → j < b.width) :
    r.bit j = b.bit j := by
  refine bit_congr ?_
  rw [bit_of_written fits written seen, if_neg (by omega)]

theorem Built.bit_of_withBit (built : b.Built) (written : b.withBit index bit = .ok r) :
    if b.isSigned = true ∧ b.width ≤ index then r = b else r.bit index = .ok bit := by
  obtain ⟨addressable, same⟩ := withBit_spec written
  split
  · next lost => rw [same, built.normalize_beyond lost.1 (ofBit_fits bit) lost.2]
  · next kept =>
      have seen (signed : b.isSigned = true) : index < b.width := by
        have := not_and.mp kept signed
        omega
      unfold Bits.bit
      rw [if_neg (by omega), bit_of_written (ofBit_fits bit) same seen, if_pos (by omega),
        Nat.sub_self, testBit_ofBit]

theorem Built.slice_of_withSlice (built : b.Built) (written : b.withSlice hi lo content = .ok r) :
    if b.isSigned = true ∧ b.width < hi then
      (b.width ≤ lo → r = b) ∧ ∀ j, lo ≤ j → j < hi →
        r.bit j = if j < b.width then .ok (testBit content (j - lo)) else r.bit (b.width - 1)
    else r.slice hi lo = .ok ⟨content, some 0, some (Int.pow 2 (hi - lo)), hi - lo⟩ := by
  obtain ⟨nonempty, addressable, declared, fits, same⟩ := withSlice_spec written
  split
  · next lost =>
      constructor
      · intro beyond
        rw [same, built.normalize_beyond lost.1 fits beyond]
      · intro j from_ below
        unfold Bits.bit
        rw [if_neg (by omega)]
        split
        · next seen => rw [bit_of_written fits same fun _ => seen, if_pos (by omega)]
        · next unseen =>
            have built' : r.Built := .withSlice built written
            have kept : r.isSigned = b.isSigned ∧ r.width = b.width := by
              rw [same]
              exact ⟨rfl, rfl⟩
            rw [if_neg (by omega), built'.sign (kept.1.trans lost.1) (by omega), kept.2]
  · next kept =>
      have seen {j : Nat} (below : j < hi) (signed : b.isSigned = true) : j < b.width := by
        have := not_and.mp kept signed
        omega
      have reads : field r.val lo (hi - lo) = content := by
        refine (field_eq_iff fits).mpr fun j below => ?_
        rw [bit_of_written fits same (seen (by omega)), if_pos (by omega), Nat.add_sub_cancel_left]
      unfold Bits.slice
      rw [if_neg (by omega), declared, reads]
      dsimp only
      rw [if_neg (by omega), unsigned_total declared fits]

/-- What is written to a bit or a slice is read back, as far as it lies below the width of a signed
vector; the bits beyond it are that of the sign. The other bits, the range and the width are kept.
-/
theorem what_is_written_within_the_width_is_read_back (built : b.Built) :
    (∀ index bit r, b.withBit index bit = .ok r →
      r = { b with val := r.val } ∧
        (if b.isSigned = true ∧ b.width ≤ index then r = b else r.bit index = .ok bit) ∧
          ∀ j, j ≠ index → (b.isSigned = true → j < b.width) → r.bit j = b.bit j) ∧
      ∀ hi lo content r, b.withSlice hi lo content = .ok r →
        r = { b with val := r.val } ∧
          (if b.isSigned = true ∧ b.width < hi then
              (b.width ≤ lo → r = b) ∧ ∀ j, lo ≤ j → j < hi → r.bit j =
                if j < b.width then .ok (testBit content (j - lo)) else r.bit (b.width - 1)
            else r.slice hi lo = .ok ⟨content, some 0, some (Int.pow 2 (hi - lo)), hi - lo⟩) ∧
            ∀ j, j < lo ∨ hi ≤ j → (b.isSigned = true → j < b.width) → r.bit j = b.bit j := by
  constructor
  · intro index bit r written
    obtain ⟨-, same⟩ := withBit_spec written
    refine ⟨by rw [same], built.bit_of_withBit written, ?_⟩
    intro j elsewhere
    exact bit_around (ofBit_fits bit) same (by omega)
  · intro hi lo content r written
    obtain ⟨nonempty, -, -, fits, same⟩ := withSlice_spec written
    refine ⟨by rw [same], built.slice_of_withSlice written, ?_⟩
    intro j elsewhere
    exact bit_around fits same (by omega)

/-- Four signed bits have no fifth one: it is written, and it is not set. -/
theorem a_bit_beyond_the_sign_is_lost :
    ∃ b r, signed 0 4 = .ok b ∧ b.withBit 5 true = .ok r ∧ r.bit 5 = .ok false :=
  ⟨_, _, rfl, rfl, rfl⟩

/-- A slice of a signed vector that ends with the sign. -/
theorem a_slice_with_the_sign :
    ∃ b r, signed 0 4 = .ok b ∧ b.withSlice 4 1 6 = .ok r ∧ r.val = -4 ∧
      r.slice 4 1 = .ok ⟨6, some 0, some 8, 3⟩ := by
  have built : signed 0 4 = .ok ⟨0, some (-8), some 8, 4⟩ := rfl
  have written : Bits.withSlice ⟨0, some (-8), some 8, 4⟩ 4 1 6 =
      .ok ⟨-4, some (-8), some 8, 4⟩ := rfl
  obtain ⟨-, slices⟩ := what_is_written_within_the_width_is_read_back (.signed built)
  obtain ⟨-, reads, -⟩ := slices 4 1 6 _ written
  exact ⟨_, _, built, written, rfl, reads⟩

/-! ## Vectors with all patterns of their width -/

/-- The range is that of all patterns of the width, as natural numbers or in two's complement. -/
structure Whole (b : Bits) : Prop where
  sized : 1 ≤ b.width ∧ b.width ≤ widest
  range : (b.min = some 0 ∧ b.max = some (Int.pow 2 b.width)) ∨
    (b.min = some (-(Int.pow 2 (b.width - 1))) ∧ b.max = some (Int.pow 2 (b.width - 1)))
  inRange : b.InRange

theorem whole_of_unsigned (built : unsigned val width = .ok b) : b.Whole := by
  have inRange := inRange_unsigned built
  obtain ⟨declared, rfl⟩ := unsigned_spec built
  exact ⟨checkWidth_eq_ok_iff.mp declared, .inl ⟨rfl, rfl⟩, inRange⟩

theorem whole_of_signed (built : signed val width = .ok b) : b.Whole := by
  obtain ⟨declared, inRange, rfl⟩ := signed_spec built
  exact ⟨checkWidth_eq_ok_iff.mp declared, .inr ⟨rfl, rfl⟩, inRange⟩

namespace Whole

variable (whole : b.Whole)

include whole

/-- A payload that is read as the vector does lies in the range, if natural numbers that are read
unchanged do. -/
theorem normalize_inside (raw : Int)
    (natural : b.min = some 0 → 0 ≤ raw ∧ raw < Int.pow 2 b.width) :
    ∃ min max, b.min = some min ∧ b.max = some max ∧
      min ≤ b.normalize raw ∧ b.normalize raw < max := by
  obtain ⟨⟨sized, -⟩, ⟨least, most⟩ | ⟨least, most⟩, -⟩ := whole
  · refine ⟨_, _, least, most, ?_⟩
    unfold normalize isSigned
    rw [least, if_neg (by simp)]
    exact natural least
  · have half := pow_pos (b.width - 1)
    refine ⟨_, _, least, most, ?_⟩
    unfold normalize isSigned
    rw [least, if_pos ⟨decide_eq_true (by omega), sized⟩]
    exact bmod_fits raw sized

theorem natural_bounds (least : b.min = some 0) : 0 ≤ b.val ∧ b.val < Int.pow 2 b.width := by
  have half := pow_pos (b.width - 1)
  obtain ⟨-, ⟨-, most⟩ | ⟨least', -⟩, inRange⟩ := whole
  · exact inRange _ _ least most
  · have := Option.some.inj (least.symm.trans least')
    omega

theorem overwrite (within : lo + width ≤ b.width)
    (fits : 0 ≤ content ∧ content < Int.pow 2 width) :
    ∃ r, b.overwrite lo width content = .ok r ∧ r.Whole ∧ r = { b with val := r.val } ∧
      ∀ j < b.width, testBit r.val j =
        if lo ≤ j ∧ j < lo + width then testBit content (j - lo) else testBit b.val j := by
  obtain ⟨min, max, least, most, inside⟩ :=
    whole.normalize_inside (overwritten b.val lo width content) fun least =>
      overwritten_fits (whole.natural_bounds least) fits within
  have written : b.overwrite lo width content =
      .ok { b with val := b.normalize (overwritten b.val lo width content) } :=
    withVal_of_fits least most inside
  refine ⟨_, written, ⟨whole.sized, whole.range, ?_⟩, rfl, fun j below => ?_⟩
  · exact (withVal_eq written).2
  · exact bit_of_written fits rfl fun _ => below

theorem withBit (below : index < b.width) (bit : Bool) :
    ∃ r, b.withBit index bit = .ok r ∧ r.Whole ∧ r = { b with val := r.val } ∧
      ∀ j < b.width, testBit r.val j = if j = index then bit else testBit b.val j := by
  obtain ⟨r, written, whole', same, bits⟩ :=
    whole.overwrite (show index + 1 ≤ b.width from below) (ofBit_fits bit)
  have narrow := whole.sized.2
  refine ⟨r, ?_, whole', same, fun j below => ?_⟩
  · unfold Bits.withBit
    rw [if_neg (by unfold payloadWidth; unfold widest at narrow; omega)]
    exact written
  · rw [bits j below]
    by_cases here : j = index
    · rw [if_pos here, if_pos (by omega), here, Nat.sub_self, testBit_ofBit]
    · rw [if_neg here, if_neg (by omega)]

theorem withSlice (nonempty : lo < hi) (within : hi ≤ b.width)
    (fits : 0 ≤ content ∧ content < Int.pow 2 (hi - lo)) :
    ∃ r, b.withSlice hi lo content = .ok r ∧ r.Whole ∧ r = { b with val := r.val } ∧
      ∀ j < b.width, testBit r.val j =
        if lo ≤ j ∧ j < hi then testBit content (j - lo) else testBit b.val j := by
  obtain ⟨r, written, whole', same, bits⟩ :=
    whole.overwrite (show lo + (hi - lo) ≤ b.width by omega) fits
  have narrow := whole.sized.2
  have declared : checkWidth (hi - lo) = .ok () := checkWidth_eq_ok_iff.mpr (by omega)
  rw [Nat.add_sub_of_le (Nat.le_of_lt nonempty)] at bits
  refine ⟨r, ?_, whole', same, bits⟩
  unfold Bits.withSlice
  rw [if_neg (by unfold payloadWidth; unfold widest at narrow; omega), declared]
  dsimp only
  rw [if_neg (by omega)]
  exact written

/-- Bits that are written one after the other. -/
theorem foldlM_withBit (bits : Nat → Bool) {order : List Nat}
    (within : ∀ i ∈ order, lo + i < b.width) :
    ∃ r, order.foldlM (fun b i => b.withBit (lo + i) (bits i)) b = .ok r ∧ r.Whole ∧
      r = { b with val := r.val } ∧ ∀ j < b.width, testBit r.val j =
        if lo ≤ j ∧ j - lo ∈ order then bits (j - lo) else testBit b.val j := by
  induction order generalizing b with
  | nil => exact ⟨b, rfl, whole, rfl, fun j _ => (if_neg fun listed => nomatch listed.2).symm⟩
  | cons i rest ih =>
      obtain ⟨m, written, whole', same, first⟩ :=
        whole.withBit (within i List.mem_cons_self) (bits i)
      have width : m.width = b.width := by rw [same]
      obtain ⟨r, folded, whole'', same', others⟩ := ih whole' fun i listed =>
        width ▸ within i (List.mem_cons_of_mem _ listed)
      refine ⟨r, ?_, whole'', ?_, fun j below => ?_⟩
      · rw [List.foldlM_cons, written]
        exact folded
      · rw [same', same]
      · -- The writes to come decide, and where there is none, the one that was just made.
        rw [others j (width ▸ below), first j below]
        by_cases again : lo ≤ j ∧ j - lo ∈ rest
        · rw [if_pos again, if_pos ⟨again.1, List.mem_cons_of_mem _ again.2⟩]
        · rw [if_neg again]
          by_cases here : j = lo + i
          · subst here
            rw [if_pos rfl, Nat.add_sub_cancel_left,
              if_pos ⟨Nat.le_add_right lo i, List.mem_cons_self⟩]
          · rw [if_neg here, if_neg]
            rintro ⟨from_, listed⟩
            rcases List.mem_cons.mp listed with same | listed
            · omega
            · exact again ⟨from_, listed⟩

/-- A vector is known by its bits. -/
theorem ext (whole' : r.Whole) (same : r = { b with val := r.val })
    (bits : ∀ j < b.width, testBit r.val j = testBit b.val j) : r = b := by
  have val : r.val = b.val := by
    obtain ⟨⟨sized, -⟩, ⟨least, most⟩ | ⟨least, most⟩, inRange⟩ := whole
    · refine eq_of_testBit_natural (whole'.inRange _ _ ?_ ?_) (inRange _ _ least most) bits
      · rw [same]
        exact least
      · rw [same]
        exact most
    · refine eq_of_testBit_signed sized (whole'.inRange _ _ ?_ ?_) (inRange _ _ least most) bits
      · rw [same]
        exact least
      · rw [same]
        exact most
  rw [same, val]

end Whole

/-- A slice write to a vector with all patterns of its width succeeds and is the writing of its bits
one after the other, in any order. -/
theorem a_slice_write_is_its_bit_writes_in_any_order
    (built : unsigned val width = .ok b ∨ signed val width = .ok b) (nonempty : lo < hi)
    (within : hi ≤ width) (fits : 0 ≤ content ∧ content < Int.pow 2 (hi - lo)) :
    ∃ r, b.withSlice hi lo content = .ok r ∧
      ∀ order : List Nat, order.Perm (List.range (hi - lo)) →
        order.foldlM (fun b i => b.withBit (lo + i) (testBit content i)) b = .ok r := by
  have spec : b.Whole ∧ b.width = width := by
    rcases built with built | built
    · exact ⟨whole_of_unsigned built, by rw [(unsigned_spec built).2]⟩
    · exact ⟨whole_of_signed built, by rw [(signed_spec built).2.2]⟩
  obtain ⟨whole, rfl⟩ := spec
  obtain ⟨r, written, wholeSlice, same, bits⟩ := whole.withSlice nonempty within fits
  refine ⟨r, written, ?_⟩
  intro order perm
  have member (i : Nat) : i ∈ order ↔ i < hi - lo := perm.mem_iff.trans List.mem_range
  have inside (i : Nat) (listed : i ∈ order) : lo + i < b.width := by
    have := (member i).mp listed
    omega
  obtain ⟨r', folded, wholeFold, same', bits'⟩ := whole.foldlM_withBit (testBit content) inside
  have ends : r' = { r with val := r'.val } := by rw [same', same]
  rw [folded, wholeSlice.ext wholeFold ends fun j below => ?_]
  have below : j < b.width := by
    rw [same] at below
    exact below
  rw [bits' j below, bits j below]
  refine if_congr ?_ rfl rfl
  rw [member]
  omega

/-- Three bits of a signed vector, the sign first. -/
theorem three_bits_from_the_sign_on :
    ∃ b r, signed 0 4 = .ok b ∧ b.withSlice 4 1 6 = .ok r ∧
      [2, 0, 1].foldlM (fun b i => b.withBit (1 + i) (testBit 6 i)) b = .ok r := by
  have built : signed 0 4 = .ok ⟨0, some (-8), some 8, 4⟩ := rfl
  obtain ⟨r, written, ordered⟩ :=
    a_slice_write_is_its_bit_writes_in_any_order (.inr built) (by decide : 1 < 4) (by decide)
      (by decide : (0 : Int) ≤ 6 ∧ (6 : Int) < Int.pow 2 (4 - 1))
  exact ⟨_, r, built, written, ordered [2, 0, 1] (by decide)⟩

end Bits

end DeltaCycle
