import DeltaCycle.Proofs.BitStrings

/-!
# Codes of items

The code of an item is a pattern of as many bits as its enumeration takes. The width is the least
one that holds each index, or one bit for each item; then the bit of the item is the only one that
is set, or the only one that is clear. Payloads give the same codes and widths, as long as a payload
has room for the bits.
-/

set_option autoImplicit false

namespace DeltaCycle

open Bits

theorem Bits.significantBits_natCast_le_iff (n width : Nat) :
    significantBits (n : Int) ≤ width ↔ n < 2 ^ width := by
  rw [significantBits_le_iff (Int.natCast_nonneg n), pow_eq_natCast, Int.ofNat_lt]

/-! ## Enumerations and their items -/

namespace Enumeration

variable {e : Enumeration} {name item : String} {items seen : List String} {encoding : Encoding}
variable {index : Nat}

theorem firstRepeat?_eq_none_iff :
    firstRepeat? seen items = none ↔ items.Nodup ∧ ∀ item ∈ items, item ∉ seen := by
  induction items generalizing seen with
  | nil => exact iff_of_true rfl ⟨List.nodup_nil, nofun⟩
  | cons item items ih =>
      rw [firstRepeat?]
      split
      · next repeated =>
          exact iff_of_false nofun fun ⟨_, fresh⟩ => fresh item List.mem_cons_self repeated
      · next fresh =>
          rw [ih, List.nodup_cons, List.forall_mem_cons]
          grind

/-- An enumeration is declared if there are items and no two of them are equal. -/
theorem declare_eq_ok_iff :
    declare name items encoding = .ok e ↔
      (items ≠ [] ∧ items.Nodup) ∧ e = ⟨name, items, encoding⟩ := by
  have distinct : firstRepeat? [] items = none ↔ items.Nodup := by
    rw [firstRepeat?_eq_none_iff]
    exact and_iff_left fun _ _ => List.not_mem_nil
  unfold declare
  split
  · next empty =>
      exact iff_of_false nofun fun ⟨⟨nonempty, _⟩, _⟩ => nonempty (List.isEmpty_iff.mp empty)
  · next nonempty =>
      rw [and_iff_right (mt List.isEmpty_iff.mpr nonempty), ← distinct]
      cases firstRepeat? [] items with
      | some item => exact iff_of_false nofun nofun
      | none =>
          rw [Except.ok.injEq, and_iff_right rfl]
          exact eq_comm

/-- The first item of a name is the only one. -/
theorem item?_of_name (distinct : e.items.Nodup) (listed : e.items[index]? = some name) :
    e.item? name = some ⟨e, index⟩ := by
  obtain ⟨below, same⟩ := List.getElem?_eq_some_iff.mp listed
  have found : e.items.findIdx? (· == name) = some index := by
    refine List.findIdx?_eq_some_iff_getElem.mpr ⟨below, beq_iff_eq.mpr same, fun j earlier => ?_⟩
    intro equal
    have twice := (beq_iff_eq.mp equal).trans same.symm
    exact Nat.ne_of_lt earlier ((distinct.getElem_inj_iff).mp twice)
  rw [item?, found]
  rfl

theorem width_of_binary (binary : e.encoding = .binary) :
    e.width = Nat.max (significantBits ((e.size - 1 : Nat) : Int)) 1 := by
  simp only [width, binary]

theorem width_of_oneHot (oneHot : e.encoding = .oneHot) : e.width = e.size := by
  simp only [width, oneHot]

theorem width_of_oneCold (oneCold : e.encoding = .oneCold) : e.width = e.size := by
  simp only [width, oneCold]

theorem width_of_unary (unary : e.encoding ≠ .binary) : e.width = e.size := by
  cases encoding : e.encoding with
  | binary => exact absurd encoding unary
  | oneHot => exact width_of_oneHot encoding
  | oneCold => exact width_of_oneCold encoding

theorem width_pos (nonempty : 0 < e.size) : 1 ≤ e.width := by
  by_cases binary : e.encoding = .binary
  · rw [width_of_binary binary]
    exact Nat.le_max_right _ _
  · rw [width_of_unary binary]
    exact nonempty

/-- The width of the binary encoding is the least one that holds each index. -/
theorem isLeast_width (binary : e.encoding = .binary) (nonempty : 0 < e.size) :
    IsLeast {width | 1 ≤ width ∧ ∀ index < e.size, index < 2 ^ width} e.width := by
  have enough := significantBits_natCast_le_iff (e.size - 1)
  rw [width_of_binary binary]
  constructor
  · have last := (enough _).mp (Nat.le_max_left _ 1)
    exact ⟨Nat.le_max_right _ _, fun index below =>
      Nat.lt_of_le_of_lt (Nat.le_sub_one_of_lt below) last⟩
  · rintro width ⟨sized, holds⟩
    exact natMax_le_iff.mpr ⟨(enough width).mpr (holds _ (by omega)), sized⟩

end Enumeration

/-! ## Patterns -/

namespace EnumItem

variable {item : EnumItem} {j : Nat}

theorem code_of_binary (binary : item.type.encoding = .binary) : item.code = item.index := by
  simp only [code, binary]

theorem code_eq_toPayload (oneHot : item.type.encoding = .oneHot) :
    item.code = toPayload (Int.pow 2 item.index) := by
  simp only [code, oneHot]

theorem code_of_oneHot (oneHot : item.type.encoding = .oneHot) (addressed : item.index < 127) :
    item.code = Int.pow 2 item.index := by
  have power := pow_pos item.index
  have below : Int.pow 2 item.index < Int.pow 2 127 := pow_lt_pow addressed
  rw [code_eq_toPayload oneHot]
  exact bmod_of_fits (by decide)
    ⟨Int.le_trans (show -(Int.pow 2 (payloadWidth - 1)) ≤ 0 by decide) (Int.le_of_lt power), below⟩

theorem code_of_oneCold (oneCold : item.type.encoding = .oneCold) :
    item.code = overwritten (Int.pow 2 item.type.width - 1) item.index 1 0 := by
  simp only [code, oneCold, overwritten, Int.zero_mul, Int.add_zero]

/-- The bits of the pattern of the item: those of its index, its own alone, or all but its own. -/
def pattern (item : EnumItem) (j : Nat) : Bool :=
  match item.type.encoding with
  | .binary => item.index.testBit j
  | .oneHot => decide (j = item.index)
  | .oneCold => decide (j ≠ item.index)

theorem testBit_code (existing : item.Exists) (narrow : item.type.width ≤ widest)
    (below : j < item.type.width) : testBit item.code j = item.pattern j := by
  have size : item.index < item.type.size := existing
  unfold pattern
  cases encoding : item.type.encoding with
  | binary => rw [code_of_binary encoding, testBit_natCast]
  | oneHot =>
      have wide := Enumeration.width_of_oneHot encoding
      rw [code_of_oneHot encoding (by unfold widest at narrow; omega), pow_eq_natCast,
        testBit_natCast, Nat.testBit_two_pow]
      exact decide_eq_decide.mpr eq_comm
  | oneCold =>
      have ones : Int.pow 2 item.type.width - 1 = ((2 ^ item.type.width - 1 : Nat) : Int) := by
        have positive := Nat.two_pow_pos item.type.width
        rw [pow_eq_natCast]
        omega
      rw [code_of_oneCold encoding, testBit_overwritten _ ⟨Int.le_refl 0, by decide⟩, ones,
        testBit_natCast, Nat.testBit_two_pow_sub_one]
      by_cases own : j = item.index
      · rw [if_pos (by omega), own, Nat.sub_self]
        simp [testBit]
      · rw [if_neg (by omega)]
        simp [own, below]

/-- The code tells the item. -/
theorem index_eq_of_code {other : EnumItem} (existing : item.Exists) (existing' : other.Exists)
    (narrow : item.type.width ≤ widest) (same : item.type = other.type)
    (equal : item.code = other.code) : item.index = other.index := by
  have size : item.index < item.type.size := existing
  by_cases binary : item.type.encoding = .binary
  · rw [code_of_binary binary, code_of_binary (same ▸ binary)] at equal
    exact Int.ofNat_inj.mp equal
  · have wide := Enumeration.width_of_unary binary
    have own := testBit_code existing narrow (wide ▸ size)
    have others := testBit_code existing' (same ▸ narrow) (same ▸ wide ▸ size)
    rw [equal, others] at own
    unfold pattern at own
    rw [← same] at own
    cases encoding : item.type.encoding with
    | binary => exact absurd encoding binary
    | _ => simpa [encoding] using own

end EnumItem

/-! ## Codes in payloads -/

/-- Payloads make up the pattern of the item: the items can be counted, and the shifts and masks
that its encoding takes are defined. -/
def EnumItem.Codable (item : EnumItem) : Prop :=
  item.type.size < Word.countLimit ∧
    match item.type.encoding with
    | .binary => True
    | .oneHot => item.index < payloadWidth
    | .oneCold => item.type.size ≤ widest

theorem EnumItem.codable_of_narrow {item : EnumItem} (existing : item.Exists)
    (few : item.type.size < Word.countLimit) (narrow : item.type.width ≤ widest) :
    item.Codable := by
  have size : item.index < item.type.size := existing
  have addressed := Word.lt_payloadWidth narrow
  refine ⟨few, ?_⟩
  cases encoding : item.type.encoding with
  | binary => trivial
  | oneHot =>
      have wide := Enumeration.width_of_oneHot encoding
      show item.index < payloadWidth
      omega
  | oneCold =>
      have wide := Enumeration.width_of_oneCold encoding
      exact wide ▸ narrow

namespace Word

/-- The count before this one. -/
def countBefore (n : Nat) : Attempt ValueError Nat :=
  if n = 0 then .error .undefined else .ok (n - 1)

/-- The bits of a count from its leading one on. -/
def countBits (n : Nat) : Nat := 32 - (BitVec.ofNat 32 n).clz.toNat

/-- The width of an enumeration, from a count of its items. -/
def itemWidth (e : Enumeration) : Attempt ValueError Nat :=
  match e.encoding with
  | .binary => do
      let last ← countBefore (e.size % countLimit)
      return Nat.max (countBits last) 1
  | .oneHot | .oneCold => .ok (e.size % countLimit)

/-- The code of an item, by shifts and a mask. -/
def itemCode (item : EnumItem) : Attempt ValueError Word := do
  let width ← itemWidth item.type
  match item.type.encoding with
  | .binary => .ok (ofInt item.index)
  | .oneHot => shiftLeft 1 item.index
  | .oneCold => do
      let all ← mask width
      let own ← shiftLeft 1 item.index
      return all &&& ~~~own

/-- A value as a vector. -/
def toBits : Value → Attempt ValueError Bits
  | .enum item => do
      let code ← itemCode item
      let width ← itemWidth item.type
      unsigned code width
  | .bool b => unsigned (ofInt (if b then 1 else 0)) 1
  | v => .ofExcept v.toBits

variable {n width index : Nat} {e : Enumeration} {item : EnumItem}

theorem countBits_eq (few : n < countLimit) : countBits n = significantBits n := by
  have value : (BitVec.ofNat 32 n).toNat = n := Nat.mod_eq_of_lt few
  have below := (BitVec.ofNat 32 n).toNat_lt_two_pow_sub_clz
  rw [value] at below
  refine Nat.le_antisymm ?_ ((significantBits_natCast_le_iff n _).mpr below)
  by_cases zero : n = 0
  · rw [zero]
    decide
  · refine Nat.le_of_not_lt fun less => ?_
    have other : BitVec.ofNat 32 n ≠ 0#32 := fun equal => zero (value.symm.trans (congrArg _ equal))
    have leading := BitVec.two_pow_sub_clz_le_toNat_of_ne_zero (by decide) other
    rw [value] at leading
    unfold countBits at less
    exact Nat.not_lt.mpr leading ((significantBits_natCast_le_iff n _).mp (by omega))

theorem ofInt_toNat (a : Word) : ofInt a.toNat = a := by
  rw [ofInt, BitVec.ofInt_natCast, BitVec.ofNat_toNat, BitVec.setWidth_eq]

theorem itemWidth_of_binary (binary : e.encoding = .binary) :
    itemWidth e = (countBefore (e.size % countLimit)).bind fun last =>
      .ok (Nat.max (countBits last) 1) := by
  unfold itemWidth
  rw [binary]
  rfl

theorem itemWidth_of_unary (unary : e.encoding ≠ .binary) :
    itemWidth e = .ok (e.size % countLimit) := by
  unfold itemWidth
  cases encoding : e.encoding with
  | binary => exact absurd encoding unary
  | oneHot | oneCold => rfl

theorem itemWidth_eq (nonempty : 0 < e.size) (few : e.size < countLimit) :
    itemWidth e = .ok e.width := by
  by_cases binary : e.encoding = .binary
  · rw [itemWidth_of_binary binary, Nat.mod_eq_of_lt few, countBefore,
      if_neg (Nat.ne_of_gt nonempty), Enumeration.width_of_binary binary, ← countBits_eq (by omega)]
    rfl
  · rw [itemWidth_of_unary binary, Nat.mod_eq_of_lt few, Enumeration.width_of_unary binary]

/-- Of more items than can be counted, the count gives another width. -/
theorem size_lt_of_itemWidth (nonempty : 0 < e.size) (counted : itemWidth e = .ok e.width) :
    e.size < countLimit := by
  by_cases binary : e.encoding = .binary
  · rw [itemWidth_of_binary binary, Enumeration.width_of_binary binary] at counted
    by_cases none : e.size % countLimit = 0
    · rw [countBefore, if_pos none] at counted
      cases counted
    · rw [countBefore, if_neg none] at counted
      -- A count has 32 bits at most, and the last index of more items than can be counted has 33.
      have few : countBits (e.size % countLimit - 1) ≤ 32 := Nat.sub_le _ _
      have same : Nat.max (countBits (e.size % countLimit - 1)) 1 =
          Nat.max (significantBits ((e.size - 1 : Nat) : Int)) 1 := Except.ok.inj counted
      have enough : significantBits ((e.size - 1 : Nat) : Int) ≤ 32 :=
        (natMax_le_iff.mp (same ▸ natMax_le_iff.mpr ⟨few, by decide⟩)).1
      have last : e.size - 1 < countLimit := (significantBits_natCast_le_iff _ _).mp enough
      refine Nat.lt_of_le_of_ne (by omega) fun all => none ?_
      rw [all, Nat.mod_self]
  · rw [itemWidth_of_unary binary, Enumeration.width_of_unary binary] at counted
    have whole : e.size % countLimit = e.size := Except.ok.inj counted
    exact whole ▸ Nat.mod_lt e.size (by decide : countLimit > 0)

/-- A mask without one of its bits. -/
theorem masked_without (index : Nat) {low : Word} (narrow : width ≤ widest) (within : index < width)
    (masks : low.toNat = 2 ^ width - 1) (j : Nat) (below : j < width) :
    (low &&& ~~~((1 : Word) <<< index)).toNat.testBit j = decide (j ≠ index) := by
  have addressed := Nat.lt_of_succ_lt (lt_payloadWidth narrow)
  have own : ((1 : Word) <<< index).getLsbD j = decide (index = j) := by
    rw [← BitVec.testBit_toNat, toNat_power (by omega), Nat.testBit_two_pow]
  rw [BitVec.toNat_and, Nat.testBit_and, masks, Nat.testBit_two_pow_sub_one,
    BitVec.testBit_toNat, BitVec.getLsbD_not, own]
  simp [below, Nat.lt_trans below addressed, eq_comm]

/-- The low ones but the one of the item are its one-cold code. -/
theorem toNat_oneCold (existing : item.Exists) (oneCold : item.type.encoding = .oneCold)
    (narrow : item.type.width ≤ widest) {low : Word} (masks : low.toNat = 2 ^ item.type.width - 1) :
    ((low &&& ~~~((1 : Word) <<< item.index)).toNat : Int) = item.code := by
  have size : item.index < item.type.size := existing
  have wide := Enumeration.width_of_oneCold oneCold
  have fits : 0 ≤ item.code ∧ item.code < Int.pow 2 item.type.width :=
    EnumItem.code_bounds existing (checkWidth_eq_ok_iff.mpr ⟨by omega, narrow⟩)
  refine eq_of_testBit_natural ⟨Int.natCast_nonneg _, ?_⟩ fits fun j below => ?_
  · rw [pow_eq_natCast, Int.ofNat_lt, BitVec.toNat_and, masks]
    exact Nat.lt_of_le_of_lt Nat.and_le_left (Nat.sub_lt (Nat.two_pow_pos _) Nat.one_pos)
  · rw [testBit_natCast, masked_without item.index narrow (by omega) masks j below,
      EnumItem.testBit_code existing narrow below, EnumItem.pattern, oneCold]

theorem ofInt_power (addressed : index < payloadWidth) :
    ofInt (toPayload (Int.pow 2 index)) = (1 : Word) <<< index := by
  have small : 2 ^ index < 2 ^ payloadWidth := Nat.pow_lt_pow_right (by decide) addressed
  apply BitVec.eq_of_toInt_eq
  rw [ofInt, BitVec.toInt_ofInt, BitVec.toInt_eq_toNat_bmod, BitVec.toNat_shiftLeft,
    show (1 : Word).toNat = 1 from rfl, Nat.one_shiftLeft, Nat.mod_eq_of_lt small,
    ← pow_eq_natCast]
  exact Int.bmod_bmod

theorem itemCode_eq (existing : item.Exists) (codable : item.Codable) :
    itemCode item = .ok (ofInt item.code) := by
  have size : item.index < item.type.size := existing
  obtain ⟨few, room⟩ := codable
  unfold itemCode
  rw [itemWidth_eq (by omega) few]
  cases encoding : item.type.encoding with
  | binary =>
      rw [EnumItem.code_of_binary encoding]
      rfl
  | oneHot =>
      rw [encoding] at room
      rw [EnumItem.code_eq_toPayload encoding, ofInt_power room]
      exact shiftLeft_eq 1 room
  | oneCold =>
      rw [encoding] at room
      have wide := Enumeration.width_of_oneCold encoding
      have narrow : item.type.width ≤ widest := wide ▸ room
      have addressed := lt_payloadWidth narrow
      obtain ⟨low, masked, masks⟩ := mask_eq narrow
      have own : shiftLeft 1 item.index = .ok (1 <<< item.index) := shiftLeft_eq 1 (by omega)
      rw [← toNat_oneCold existing encoding narrow masks, ofInt_toNat]
      simp only [bind, Except.bind, masked, own]
      rfl

theorem toInt_code (existing : item.Exists) (codable : item.Codable) :
    (ofInt item.code).toInt = item.code := by
  have size : item.index < item.type.size := existing
  obtain ⟨few, room⟩ := codable
  have least : leastPayload ≤ 0 := by decide
  cases encoding : item.type.encoding with
  | binary =>
      have limit : (countLimit : Int) ≤ greatestPayload := by decide
      rw [EnumItem.code_of_binary encoding]
      exact toInt_ofInt ⟨by omega, by omega⟩
  | oneHot =>
      rw [EnumItem.code_eq_toPayload encoding, ofInt, BitVec.toInt_ofInt]
      exact Int.bmod_bmod
  | oneCold =>
      rw [encoding] at room
      have wide := Enumeration.width_of_oneCold encoding
      have narrow : item.type.width ≤ widest := wide ▸ room
      have bounds := EnumItem.code_bounds existing (checkWidth_eq_ok_iff.mpr ⟨by omega, narrow⟩)
      have payload : Int.pow 2 item.type.width ≤ Int.pow 2 widest := pow_le_pow narrow
      have greatest : Int.pow 2 widest ≤ greatestPayload := by decide
      exact toInt_ofInt ⟨by omega, by omega⟩

/-- Payloads make up the same vector of an item, if they have room for it. -/
theorem toBits_eq (existing : item.Exists) (codable : item.Codable) :
    toBits (.enum item) = .ofExcept (Value.enum item).toBits := by
  have nonempty : 0 < item.type.size := Nat.zero_lt_of_lt existing
  rw [toBits, itemCode_eq existing codable, itemWidth_eq nonempty codable.1]
  exact (unsigned_eq _ _).trans (by rw [toInt_code existing codable]; rfl)

theorem mask_of_wide (wide : widest < width) : mask width = .error .undefined := by
  obtain rfl | beyond : width = 127 ∨ payloadWidth ≤ width := by
    unfold widest at wide
    unfold payloadWidth
    omega
  · rfl
  · rw [mask, shiftLeft, if_pos beyond]
    rfl

/-- Without the room the vector is undefined. -/
theorem toBits_of_not_codable (existing : item.Exists) (few : item.type.size < countLimit)
    (cramped : ¬item.Codable) : toBits (.enum item) = .error .undefined := by
  have nonempty : 0 < item.type.size := Nat.zero_lt_of_lt existing
  have missing : itemCode item = .error .undefined := by
    unfold itemCode
    rw [itemWidth_eq nonempty few]
    unfold EnumItem.Codable at cramped
    cases encoding : item.type.encoding with
    | binary =>
        rw [encoding] at cramped
        exact absurd ⟨few, trivial⟩ cramped
    | oneHot =>
        rw [encoding] at cramped
        exact if_pos (Nat.le_of_not_lt fun addressed => cramped ⟨few, addressed⟩)
    | oneCold =>
        rw [encoding] at cramped
        have wide := Enumeration.width_of_oneCold encoding
        have masked : mask item.type.width = .error .undefined :=
          mask_of_wide (wide ▸ Nat.lt_of_not_le fun narrow => cramped ⟨few, narrow⟩)
        simp only [bind, Except.bind, masked]
  rw [toBits, missing]
  rfl

end Word

/-! ## Items as patterns -/

/-- What an item of an enumeration is found by, and what its pattern tells of it. -/
structure EnumItem.IsEncoded (item : EnumItem) : Prop where
  /-- It stands at its position, and is the only one of its name. -/
  found : item.type.itemAt? item.index = some item ∧
    ∃ name, item.name? = some name ∧ item.type.item? name = some item
  /-- Its code is a natural number of the width. -/
  natural : 0 ≤ item.code ∧ item.code < Int.pow 2 item.type.width
  /-- As a vector it is its code in that width. -/
  vector : (Value.enum item).toBits =
      .ok ⟨item.code, some 0, some (Int.pow 2 item.type.width), item.type.width⟩ ∧
    Bits.unsigned item.code item.type.width = (Value.enum item).toBits
  /-- The bits are those of its index, its own alone, or all but its own. -/
  bits : ∀ j < item.type.width, ∀ b, (Value.enum item).toBits = .ok b →
    b.bit j = .ok (item.pattern j)
  /-- Payloads give the same. -/
  payload : Word.itemCode item = .ok (Word.ofInt item.code) ∧
    Word.toBits (.enum item) = .ofExcept (Value.enum item).toBits

theorem EnumItem.isEncoded {item : EnumItem} (existing : item.Exists)
    (distinct : item.type.items.Nodup) (few : item.type.size < Word.countLimit)
    (narrow : item.type.width ≤ widest) : item.IsEncoded := by
  have size : item.index < item.type.size := existing
  have declared := checkWidth_eq_ok_iff.mpr ⟨Enumeration.width_pos (by omega), narrow⟩
  have bounds := EnumItem.code_bounds existing declared
  have vector : (Value.enum item).toBits =
      .ok ⟨item.code, some 0, some (Int.pow 2 item.type.width), item.type.width⟩ :=
    unsigned_total declared bounds
  have named : item.name? = some item.type.items[item.index] := List.getElem?_eq_getElem size
  have codable := codable_of_narrow existing few narrow
  exact {
    found := ⟨Enumeration.itemAt?_eq_some_iff.mpr ⟨size, rfl⟩, _, named,
      Enumeration.item?_of_name distinct named⟩
    natural := bounds
    vector := ⟨vector, rfl⟩
    bits := fun j below b converted => by
      cases vector.symm.trans converted
      rw [Bits.bit, if_neg (by have addressed := Word.lt_payloadWidth narrow; omega)]
      exact congrArg Except.ok (EnumItem.testBit_code existing narrow below)
    payload := ⟨Word.itemCode_eq existing codable, Word.toBits_eq existing codable⟩ }

namespace Enumeration

/-- Any distinct items, if there are some, are declared. If a vector may be as wide as the
enumeration and its items can be counted, then each of them is found again by its position and by
its name, and is encoded in a pattern of its own. The binary encoding has the least width that holds
each index. -/
theorem items_are_encoded_in_patterns_of_their_own :
    (∀ name items encoding,
      (∃ e, declare name items encoding = .ok e) ↔ items ≠ [] ∧ items.Nodup) ∧
      ∀ name items encoding e, declare name items encoding = .ok e →
        e.size < Word.countLimit → e.width ≤ widest →
          (∀ index < e.size, EnumItem.IsEncoded ⟨e, index⟩) ∧
          (∀ index < e.size, ∀ other < e.size,
            EnumItem.code ⟨e, index⟩ = EnumItem.code ⟨e, other⟩ → index = other) ∧
          Word.itemWidth e = .ok e.width ∧
          (e.encoding = .binary →
            IsLeast {width | 1 ≤ width ∧ ∀ index < e.size, index < 2 ^ width} e.width) := by
  constructor
  · intro name items encoding
    simp only [declare_eq_ok_iff, exists_and_left, exists_eq, and_true]
  · intro name items encoding e declared few narrow
    obtain ⟨⟨populated, distinct⟩, rfl⟩ := declare_eq_ok_iff.mp declared
    have nonempty : 0 < items.length := List.length_pos_of_ne_nil populated
    refine ⟨fun index below => ?_, fun index below other below' equal => ?_, ?_, fun binary => ?_⟩
    · exact EnumItem.isEncoded below distinct few narrow
    · have existing : EnumItem.Exists ⟨⟨name, items, encoding⟩, index⟩ := below
      have existing' : EnumItem.Exists ⟨⟨name, items, encoding⟩, other⟩ := below'
      exact EnumItem.index_eq_of_code existing existing' narrow rfl equal
    · exact Word.itemWidth_eq nonempty few
    · exact isLeast_width binary nonempty

/-- Five states in five bits of which one is clear, and in three bits as numbers. -/
theorem five_states_are_encoded :
    (Value.enum ⟨⟨"state", ["idle", "load", "run", "done", "halt"], .oneCold⟩, 2⟩).toBits =
        .ok ⟨27, some 0, some 32, 5⟩ ∧
      (⟨27, some 0, some 32, 5⟩ : Bits).bit 2 = .ok false ∧
        IsLeast {width | 1 ≤ width ∧ ∀ index < 5, index < 2 ^ width} 3 := by
  have cold : declare "state" ["idle", "load", "run", "done", "halt"] .oneCold =
      .ok ⟨"state", ["idle", "load", "run", "done", "halt"], .oneCold⟩ := rfl
  have binary : declare "state" ["idle", "load", "run", "done", "halt"] .binary =
      .ok ⟨"state", ["idle", "load", "run", "done", "halt"], .binary⟩ := rfl
  obtain ⟨-, encodes⟩ := items_are_encoded_in_patterns_of_their_own
  obtain ⟨encoded, -⟩ := encodes _ _ _ _ cold (by decide) (by decide)
  obtain ⟨-, -, -, least⟩ := encodes _ _ _ _ binary (by decide) (by decide)
  have run := encoded 2 (by decide)
  have vector := run.vector.1
  exact ⟨vector, run.bits 2 (by decide) _ vector, least rfl⟩

end Enumeration

end DeltaCycle
