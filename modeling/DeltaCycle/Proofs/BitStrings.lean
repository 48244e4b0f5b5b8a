import DeltaCycle.Proofs.Payloads

/-!
# Vectors as strings of bits

The rendering of a vector that has a width is the string of its bits. A slice is a part of the
string, and joined vectors have their strings one after the other. So the slices between any cuts,
joined again, have the string of the vector that was cut.
-/

set_option autoImplicit false

namespace DeltaCycle

/-- Vectors are joined as values as they are. -/
theorem Value.concat_bits (parts : List Bits) :
    Value.concat (parts.map .bits) = Bits.concat parts := by
  have converted : Value.allToBits (parts.map .bits) = .ok parts := by
    induction parts with
    | nil => rfl
    | cons part rest ih =>
        rw [List.map_cons, allToBits, ih]
        rfl
  rw [concat, converted]

namespace Bits

variable {b r part : Bits} {acc content : Int} {n lo hi width i : Nat} {bits bits' : Nat → Bool}
variable {parts : List Bits}

/-! ## Digits -/

/-- The digit of a bit. -/
def digit (bit : Bool) : Char := if bit then '1' else '0'

/-- The digits of low bits, the most significant one first. -/
def digits (bits : Nat → Bool) : Nat → List Char
  | 0 => []
  | width + 1 => digit (bits width) :: digits bits width

theorem length_digits (bits : Nat → Bool) (width : Nat) : (digits bits width).length = width := by
  induction width with
  | zero => rfl
  | succ width ih => rw [digits, List.length_cons, ih]

theorem digits_congr (same : ∀ i < width, bits i = bits' i) :
    digits bits width = digits bits' width := by
  induction width with
  | zero => rfl
  | succ width ih =>
      rw [digits, digits, same width (Nat.lt_succ_self width),
        ih fun i below => same i (Nat.lt_succ_of_lt below)]

theorem digits_add (bits : Nat → Bool) (lo width : Nat) :
    digits bits (lo + width) = digits (fun i => bits (lo + i)) width ++ digits bits lo := by
  induction width with
  | zero => rfl
  | succ width ih => rw [← Nat.add_assoc, digits, digits, ih, List.cons_append]

/-- Counted from the right, the digits are those of the bits. -/
theorem getElem?_reverse_digits (bits : Nat → Bool) (below : i < width) :
    (digits bits width).reverse[i]? = some (digit (bits i)) := by
  obtain ⟨more, rfl⟩ := Nat.exists_eq_add_of_lt below
  have front : (digits bits i).reverse.length ≤ i := by
    rw [List.length_reverse, length_digits]
  rw [Nat.add_assoc, digits_add, List.reverse_append, List.getElem?_append_right front,
    List.length_reverse, length_digits, Nat.sub_self, Nat.add_comm, digits_add, List.reverse_append]
  rfl

/-! ## Numerals -/

theorem testBit_natCast (n i : Nat) : testBit n i = n.testBit i := by
  unfold testBit
  rw [Nat.testBit_eq_decide_div_mod_eq, pow_eq_natCast]
  norm_cast
  rw [Bool.eq_iff_iff, beq_iff_eq, decide_eq_true_iff, Nat.cast_eq_one]

theorem digitChar_mod_two (n : Nat) : (n % 2).digitChar = digit (n.testBit 0) := by
  rw [Nat.testBit_zero]
  rcases Nat.mod_two_eq_zero_or_one n with even | odd
  · rw [even]
    rfl
  · rw [odd]
    rfl

/-- A numeral with zeros in front has the digits of the number. -/
theorem zeros_toDigits (fits : n < 2 ^ (width + 1)) :
    List.replicate (width + 1 - (Nat.toDigits 2 n).length) '0' ++ Nat.toDigits 2 n =
      digits n.testBit (width + 1) := by
  induction width generalizing n with
  | zero =>
      obtain rfl | rfl : n = 0 ∨ n = 1 := by omega
      · rfl
      · rfl
  | succ width ih =>
      have low : digits n.testBit (width + 1 + 1) =
          digits (n / 2).testBit (width + 1) ++ [(n % 2).digitChar] := by
        rw [Nat.add_comm (width + 1), digits_add, digitChar_mod_two]
        refine congrArg (· ++ [digit (n.testBit 0)]) (digits_congr fun i _ => ?_)
        rw [Nat.add_comm 1 i, Nat.testBit_succ]
      rw [low, ← ih (by rw [Nat.pow_succ] at fits; omega), Nat.toDigits_eq_if (by decide)]
      split
      · next single =>
          have none : n / 2 = 0 := by omega
          rw [none, Nat.mod_eq_of_lt single]
          exact congrArg (· ++ [n.digitChar]) List.replicate_succ'
      · rw [List.length_append, List.append_assoc]
        congr 2
        exact Nat.add_sub_add_right _ 1 _

theorem padded_eq (sized : width ≠ 0) (fits : n < 2 ^ width) :
    (Text.padded 2 width n).toList = digits n.testBit width := by
  obtain ⟨width, rfl⟩ := Nat.exists_eq_succ_of_ne_zero sized
  unfold Text.padded
  rw [String.toList_ofList]
  exact zeros_toDigits fits

/-! ## Renderings -/

/-- The rendering of a vector with a width is made of its bits. -/
theorem binary_eq (sized : b.width ≠ 0) : b.binary.toList = digits (testBit b.val) b.width := by
  obtain ⟨natural, fits⟩ := field_bounds b.val 0 b.width
  have whole : field b.val 0 b.width = b.val % Int.pow 2 b.width :=
    congrArg (· % Int.pow 2 b.width) (Int.ediv_one b.val)
  obtain ⟨raw, same⟩ := Int.eq_ofNat_of_zero_le natural
  rw [same, pow_eq_natCast, Int.ofNat_lt] at fits
  unfold binary
  rw [if_neg sized, same, Int.toNat_natCast, padded_eq sized fits]
  refine digits_congr fun i below => ?_
  rw [← testBit_natCast, ← same, whole, testBit_emod below]

theorem length_binary (sized : b.width ≠ 0) : b.binary.length = b.width := by
  rw [← String.length_toList, binary_eq sized, length_digits]

/-- A field is rendered as its place among the digits. -/
theorem digits_field (n : Int) (lo width : Nat) :
    digits (testBit (field n lo width)) width = digits (fun i => testBit n (lo + i)) width := by
  refine digits_congr fun i below => ?_
  rw [field, testBit_emod below, testBit_ediv]

theorem digits_between (bits : Nat → Bool) (ordered : lo ≤ hi) (within : hi ≤ width) :
    ((digits bits width).drop (width - hi)).take (hi - lo) =
      digits (fun i => bits (lo + i)) (hi - lo) := by
  obtain ⟨above, rfl⟩ := Nat.exists_eq_add_of_le within
  obtain ⟨length, rfl⟩ := Nat.exists_eq_add_of_le ordered
  rw [Nat.add_sub_cancel_left, Nat.add_sub_cancel_left, digits_add, List.drop_left'
    (length_digits _ _), digits_add, List.take_left' (length_digits _ _)]

/-! ## Slices -/

/-- A slice within the width succeeds. -/
theorem slice_within (narrow : b.width ≤ widest) (nonempty : lo < hi) (within : hi ≤ b.width) :
    b.slice hi lo =
      .ok ⟨field b.val lo (hi - lo), some 0, some (Int.pow 2 (hi - lo)), hi - lo⟩ := by
  have declared : checkWidth (hi - lo) = .ok () := checkWidth_eq_ok_iff.mpr (by omega)
  have payload : ¬payloadWidth ≤ hi := by
    unfold widest at narrow
    unfold payloadWidth
    omega
  unfold slice
  rw [if_neg (by omega), declared]
  dsimp only
  rw [if_neg payload, unsigned_total declared (field_bounds b.val lo (hi - lo))]

theorem bit_within (narrow : b.width ≤ widest) (below : i < b.width) :
    b.bit i = .ok (testBit b.val i) := by
  unfold widest at narrow
  unfold bit payloadWidth
  exact if_neg (by omega)

/-! ## Joined vectors -/

/-- All the bits of vectors that stand side by side. -/
def totalWidth (parts : List Bits) : Nat := (parts.map Bits.width).sum

/-- The digits of what is appended come after those of what is there. -/
theorem digits_append (fits : 0 ≤ content ∧ content < Int.pow 2 width) (n : Int) (more : Nat) :
    digits (testBit (n * Int.pow 2 width + content)) (more + width) =
      digits (testBit n) more ++ digits (testBit content) width := by
  rw [Nat.add_comm, digits_add]
  refine congrArg₂ (· ++ ·) (digits_congr fun i _ => ?_) (digits_congr fun i below => ?_)
  · rw [← testBit_ediv, append_ediv fits]
  · refine emod_eq_emod_iff.mp ?_ i below
    rw [Int.add_comm, Int.add_mul_emod_self_right]

/-- Parts are joined if each of them has a width, and the widths add up to one that is allowed. -/
theorem concatFrom_eq_ok_iff (fits : 0 ≤ acc ∧ acc < Int.pow 2 width) :
    (∃ r, concatFrom acc width parts = .ok r) ↔
      (∀ part ∈ parts, part.width ≠ 0) ∧ checkWidth (width + totalWidth parts) = .ok () := by
  induction parts generalizing acc width with
  | nil =>
      rw [and_iff_right (List.forall_mem_nil _)]
      constructor
      · rintro ⟨_, built⟩
        exact (unsigned_spec built).1
      · intro declared
        exact ⟨_, unsigned_total declared fits⟩
  | cons part rest ih =>
      have total : width + totalWidth (part :: rest) = width + part.width + totalWidth rest :=
        (Nat.add_assoc _ _ _).symm
      rw [concatFrom, List.forall_mem_cons, total]
      split
      · next unsized =>
          refine iff_of_false ?_ fun sized => sized.1.1 unsized
          rintro ⟨_, ⟨⟩⟩
      · next sized =>
          rw [and_iff_right (a := part.width ≠ 0) sized]
          cases declared : checkWidth (width + part.width) with
          | error cause =>
              refine iff_of_false ?_ ?_
              · rintro ⟨_, ⟨⟩⟩
              · rintro ⟨-, whole⟩
                have bounds := checkWidth_eq_ok_iff.mp whole
                rw [checkWidth_eq_ok_iff.mpr (by omega)] at declared
                cases declared
          | ok _ => exact ih (append_bounds fits (field_bounds part.val 0 part.width))

theorem unsigned_again {val : Int} (built : unsigned val width = .ok r) :
    unsigned r.val r.width = .ok r := by
  obtain ⟨-, same⟩ := unsigned_spec built
  rw [same] at built ⊢
  exact built

/-- The digits of each part follow those of what was joined before. -/
theorem concatFrom_digits (fits : 0 ≤ acc ∧ acc < Int.pow 2 width)
    (joined : concatFrom acc width parts = .ok r) :
    unsigned r.val r.width = .ok r ∧ r.width = width + totalWidth parts ∧
      digits (testBit r.val) r.width = digits (testBit acc) width ++
        parts.flatMap fun part => digits (testBit part.val) part.width := by
  induction parts generalizing acc width with
  | nil =>
      refine ⟨unsigned_again joined, ?_⟩
      obtain ⟨-, rfl⟩ := unsigned_spec joined
      exact ⟨rfl, (List.append_nil _).symm⟩
  | cons part rest ih =>
      rw [concatFrom] at joined
      split at joined
      · cases joined
      · split at joined
        · cases joined
        · have content := field_bounds part.val 0 part.width
          obtain ⟨again, total, follow⟩ := ih (append_bounds fits content) joined
          have low := digits_field part.val 0 part.width
          simp only [Nat.zero_add] at low
          refine ⟨again, total.trans (Nat.add_assoc _ _ _), ?_⟩
          rw [follow, digits_append content, low, List.flatMap_cons, List.append_assoc]

theorem totalWidth_pos (sized : ∀ part ∈ parts, part.width ≠ 0) (some_ : parts ≠ []) :
    1 ≤ totalWidth parts := by
  obtain ⟨part, rest, rfl⟩ := List.exists_cons_of_ne_nil some_
  have first := sized part List.mem_cons_self
  have total : totalWidth (part :: rest) = part.width + totalWidth rest := rfl
  omega

theorem concat_eq_ok_iff (parts : List Bits) :
    (∃ r, concat parts = .ok r) ↔
      parts ≠ [] ∧ (∀ part ∈ parts, part.width ≠ 0) ∧ totalWidth parts ≤ widest := by
  have empty : (0 : Int) ≤ 0 ∧ (0 : Int) < Int.pow 2 0 := by decide
  have joins : (∃ r, concat parts = .ok r) ↔ _ := concatFrom_eq_ok_iff empty
  rw [Nat.zero_add, checkWidth_eq_ok_iff] at joins
  refine joins.trans ⟨fun ⟨sized, least, most⟩ => ⟨?_, sized, most⟩, fun ⟨some_, sized, most⟩ =>
    ⟨sized, totalWidth_pos sized some_, most⟩⟩
  rintro rfl
  exact absurd least (by decide)

/-- The rendering of joined vectors is that of the parts in order. -/
theorem binary_of_concat (joined : concat parts = .ok r) :
    unsigned r.val r.width = .ok r ∧ r.width = totalWidth parts ∧
      r.binary = String.join (parts.map binary) := by
  obtain ⟨some_, sized, -⟩ := (concat_eq_ok_iff parts).mp ⟨r, joined⟩
  obtain ⟨again, total, follow⟩ := concatFrom_digits (by decide) joined
  rw [Nat.zero_add] at total
  have positive := totalWidth_pos sized some_
  refine ⟨again, total, String.ext ?_⟩
  rw [binary_eq (by omega), follow, String.toList_join, List.flatMap_map]
  exact List.flatMap_congr fun part listed => (binary_eq (sized part listed)).symm

/-! ## Cuts -/

/-- The adjacent slices of these widths that end with the lowest bit, the most significant one
first. -/
def slices (b : Bits) : List Nat → Except ValueError (List Bits)
  | [] => .ok []
  | width :: rest => do
      let part ← b.slice (width + rest.sum) rest.sum
      let others ← slices b rest
      return part :: others

/-- Adjacent slices have the digits of the vector from where the first one starts. -/
theorem slices_within (narrow : b.width ≤ widest) {cuts : List Nat} (sized : ∀ cut ∈ cuts, cut ≠ 0)
    (within : cuts.sum ≤ b.width) :
    ∃ parts, b.slices cuts = .ok parts ∧ parts.map Bits.width = cuts ∧
      (parts.flatMap fun part => digits (testBit part.val) part.width) =
        digits (testBit b.val) cuts.sum := by
  induction cuts with
  | nil => exact ⟨[], rfl, rfl, rfl⟩
  | cons cut rest ih =>
      have first := sized cut List.mem_cons_self
      rw [List.sum_cons] at within
      obtain ⟨parts, others, widths, same⟩ :=
        ih (fun cut listed => sized cut (List.mem_cons_of_mem _ listed)) (by omega)
      have sliced := slice_within narrow (show rest.sum < cut + rest.sum by omega) within
      rw [Nat.add_sub_cancel] at sliced
      refine ⟨⟨field b.val rest.sum cut, some 0, some (Int.pow 2 cut), cut⟩ :: parts, ?_, ?_, ?_⟩
      · rw [slices, sliced, others]
        rfl
      · rw [List.map_cons, widths]
      · rw [List.flatMap_cons, same, digits_field, List.sum_cons, Nat.add_comm cut, digits_add]

/-- A vector that is cut into slices has its rendering back when they are joined. -/
theorem concat_slices (narrow : b.width ≤ widest) (sized : b.width ≠ 0) {cuts : List Nat}
    (positive : ∀ cut ∈ cuts, cut ≠ 0) (total : cuts.sum = b.width) :
    ∃ parts r, b.slices cuts = .ok parts ∧ concat parts = .ok r ∧ r.width = b.width ∧
      r.binary = b.binary := by
  obtain ⟨parts, sliced, widths, same⟩ := slices_within narrow positive (Nat.le_of_eq total)
  have whole : totalWidth parts = b.width := by rw [totalWidth, widths, total]
  obtain ⟨r, joined⟩ : ∃ r, concat parts = .ok r := by
    refine (concat_eq_ok_iff parts).mpr ⟨?_, fun part listed => ?_, whole.trans_le narrow⟩
    · rintro rfl
      exact sized whole.symm
    · exact positive _ (widths ▸ List.mem_map_of_mem listed)
  obtain ⟨-, width, -⟩ := binary_of_concat joined
  obtain ⟨-, -, follow⟩ := concatFrom_digits (by decide) joined
  have same_ : r.width = b.width := width.trans whole
  refine ⟨parts, r, sliced, joined, same_, String.ext ?_⟩
  rw [binary_eq (same_ ▸ sized), follow, same, total, binary_eq sized]
  rfl

/-! ## Vectors with a width -/

/-- The vector is the string of its bits: the rendering has as many digits as the vector has bits,
and each of them is the bit at its place, counted from the right. A slice is the part of the string
from its upper to its lower end, and slices next to each other, joined again, are the string. -/
structure IsBitString (b : Bits) : Prop where
  length : b.binary.length = b.width
  bit : ∀ i < b.width, ∃ bit slice, b.bit i = .ok bit ∧ b.slice (i + 1) i = .ok slice ∧
    b.binary.toList.reverse[i]? = some (digit bit) ∧ bit = decide (slice.val = 1)
  slice : ∀ hi lo, lo < hi → hi ≤ b.width → ∃ slice, b.slice hi lo = .ok slice ∧
    slice.binary.toList = (b.binary.toList.drop (b.width - hi)).take (hi - lo)
  cuts : ∀ cuts : List Nat, (∀ cut ∈ cuts, cut ≠ 0) → cuts.sum = b.width →
    ∃ parts whole, b.slices cuts = .ok parts ∧ concat parts = .ok whole ∧
      whole.width = b.width ∧ whole.binary = b.binary

theorem isBitString (narrow : b.width ≤ widest) (sized : b.width ≠ 0) : b.IsBitString where
  length := length_binary sized
  bit := by
    intro i below
    refine ⟨_, _, bit_within narrow below, slice_within narrow (Nat.lt_succ_self i) below, ?_, ?_⟩
    · rw [binary_eq sized, getElem?_reverse_digits _ below]
    · rw [Nat.add_sub_cancel_left, field_one]
      cases testBit b.val i <;> rfl
  slice := by
    intro hi lo nonempty within
    refine ⟨_, slice_within narrow nonempty within, ?_⟩
    rw [binary_eq (Nat.sub_ne_zero_of_lt nonempty), digits_field, binary_eq sized,
      digits_between _ (Nat.le_of_lt nonempty) within]
  cuts := fun _ positive total => concat_slices narrow sized positive total

/-- Vectors with a width are strings of bits. Vectors are joined if there are any, all of them with
a width, and their widths add up to one that is allowed; what they are joined to is an unsigned
vector that is rendered as they are, one after the other. Payloads give the same, and nothing
overflows. -/
theorem sized_vectors_are_bit_strings :
    (∀ b : Bits, b.Built → b.width ≠ 0 → b.IsBitString ∧ Word.binary b = .ok b.binary ∧
      (∀ i, Word.bit b i = .ofExcept (b.bit i)) ∧
        ∀ hi lo, Word.slice b hi lo = .ofExcept (b.slice hi lo)) ∧
      ∀ parts : List Bits, (∀ part ∈ parts, part.Built) →
        ((∃ r, concat parts = .ok r) ↔
          parts ≠ [] ∧ (∀ part ∈ parts, part.width ≠ 0) ∧ totalWidth parts ≤ widest) ∧
          (∀ r, concat parts = .ok r → unsigned r.val r.width = .ok r ∧
            r.width = totalWidth parts ∧ r.binary = String.join (parts.map binary)) ∧
            Value.concat (parts.map .bits) = concat parts ∧
              Word.concat parts = .ofExcept (concat parts) := by
  constructor
  · intro b built sized
    have holds := built.holds sized
    exact ⟨isBitString built.narrow sized, Word.binary_eq holds built.narrow, Word.bit_eq holds,
      Word.slice_eq holds⟩
  · intro parts built
    exact ⟨concat_eq_ok_iff parts, fun _ joined => binary_of_concat joined, Value.concat_bits parts,
      Word.concat_eq fun part listed => (built part listed).fitsWord⟩

/-- Minus three in four bits, cut below its sign and joined again, and joined with itself. -/
theorem minus_three_is_the_string_of_its_bits :
    ∃ b, signed (-3) 4 = .ok b ∧ b.binary = "1101" ∧
      (∃ parts whole, b.slices [1, 3] = .ok parts ∧ concat parts = .ok whole ∧
        whole.binary = "1101") ∧
        ∃ twice, concat [b, b] = .ok twice ∧ twice.width = 8 ∧ twice.binary = "11011101" ∧
          Word.concat [b, b] = .ok twice := by
  have built : signed (-3) 4 = .ok ⟨-3, some (-8), some 8, 4⟩ := rfl
  have rendered : binary ⟨-3, some (-8), some 8, 4⟩ = "1101" := by decide
  obtain ⟨vectors, lists⟩ := sized_vectors_are_bit_strings
  obtain ⟨string, -⟩ := vectors _ (.signed built) (by decide)
  obtain ⟨parts, whole, sliced, joined, -, same⟩ := string.cuts [1, 3] (by decide) rfl
  obtain ⟨joins, spec, -, payloads⟩ :=
    lists [⟨-3, some (-8), some 8, 4⟩, ⟨-3, some (-8), some 8, 4⟩] (by simpa using .signed built)
  obtain ⟨twice, joined'⟩ := joins.mpr (by decide)
  obtain ⟨-, width, both⟩ := spec twice joined'
  refine ⟨_, built, rendered, ⟨parts, whole, sliced, joined, same.trans rendered⟩, twice, joined',
    width, ?_, ?_⟩
  · rw [both, List.map_cons, List.map_cons, rendered]
    rfl
  · rw [payloads, joined']
    rfl

end Bits

end DeltaCycle
