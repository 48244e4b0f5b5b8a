import DeltaCycle.Proofs.TypeSafety

/-!
# Widths

Whether vectors can be sliced and joined depends on their widths alone, and these are the same for
all values of a kind. So what succeeds for an initial value succeeds for every later one, if the
items of enumerations exist.
-/

set_option autoImplicit false

namespace DeltaCycle

namespace Bits

/-! ## Fields -/

theorem pow_pos (width : Nat) : 0 < Int.pow 2 width := Int.pow_pos (by decide)

theorem pow_add (width more : Nat) :
    Int.pow 2 (width + more) = Int.pow 2 width * Int.pow 2 more :=
  Int.pow_add 2 width more

theorem field_bounds (n : Int) (lo width : Nat) :
    0 ≤ field n lo width ∧ field n lo width < Int.pow 2 width :=
  ⟨Int.emod_nonneg _ (Int.ne_of_gt (pow_pos width)), Int.emod_lt_of_pos _ (pow_pos width)⟩

theorem pow_eq_natCast (width : Nat) : Int.pow 2 width = ((2 ^ width : Nat) : Int) :=
  (Int.natCast_pow 2 width).symm

theorem pow_le_pow {width width' : Nat} (le : width ≤ width') :
    Int.pow 2 width ≤ Int.pow 2 width' := by
  rw [pow_eq_natCast, pow_eq_natCast]
  exact Int.ofNat_le.mpr (Nat.pow_le_pow_right (by decide) le)

theorem pow_lt_pow {width width' : Nat} (lt : width < width') :
    Int.pow 2 width < Int.pow 2 width' := by
  rw [pow_eq_natCast, pow_eq_natCast]
  exact Int.ofNat_lt.mpr (Nat.pow_lt_pow_right (by decide) lt)

/-- A natural number in `width` bits with more bits appended. -/
theorem append_bounds {acc content : Int} {width more : Nat}
    (fits : 0 ≤ acc ∧ acc < Int.pow 2 width) (fits' : 0 ≤ content ∧ content < Int.pow 2 more) :
    0 ≤ acc * Int.pow 2 more + content ∧
      acc * Int.pow 2 more + content < Int.pow 2 (width + more) := by
  have shifted : 0 ≤ acc * Int.pow 2 more :=
    Int.mul_nonneg fits.1 (Int.le_of_lt (pow_pos more))
  have below : (acc + 1) * Int.pow 2 more ≤ Int.pow 2 width * Int.pow 2 more :=
    Int.mul_le_mul_of_nonneg_right fits.2 (Int.le_of_lt (pow_pos more))
  rw [Int.add_mul, Int.one_mul, ← pow_add] at below
  constructor <;> omega

/-! ## Vectors of equal width -/

theorem unsigned_spec {val : Int} {width : Nat} {b : Bits} (built : unsigned val width = .ok b) :
    checkWidth width = .ok () ∧ b = ⟨val, some 0, some (Int.pow 2 width), width⟩ := by
  unfold unsigned at built
  cases declared : checkWidth width with
  | error cause => simp [declared] at built
  | ok _ =>
      simp only [declared] at built
      exact ⟨rfl, (checked_eq built).1⟩

/-- A width that was accepted once is accepted with every natural number that it has bits for. -/
theorem unsigned_total {val : Int} {width : Nat} (declared : checkWidth width = .ok ())
    (fits : 0 ≤ val ∧ val < Int.pow 2 width) :
    unsigned val width = .ok ⟨val, some 0, some (Int.pow 2 width), width⟩ := by
  have inside : ¬ (val < 0 ∨ Int.pow 2 width ≤ val) := by omega
  simp only [unsigned, declared, checked, checkRange, if_neg inside]

/-- Natural numbers of the same width are vectors of the same kind. -/
theorem holds_unsigned {val val' : Int} {width : Nat} {b : Bits}
    (built : unsigned val width = .ok b) (fits : 0 ≤ val' ∧ val' < Int.pow 2 width) :
    ∃ b', unsigned val' width = .ok b' ∧ (Kind.bits b).Holds (.bits b') := by
  obtain ⟨declared, rfl⟩ := unsigned_spec built
  have built' := unsigned_total declared fits
  exact ⟨_, built', rfl, rfl, rfl, inRange_unsigned built'⟩

theorem slice_total {b v : Bits} {hi lo : Nat} (sliced : b.slice hi lo = .ok v) (b' : Bits) :
    ∃ v', b'.slice hi lo = .ok v' ∧ (Kind.bits v).Holds (.bits v') := by
  unfold slice at sliced ⊢
  split at sliced
  · cases sliced
  · next full =>
      rw [if_neg full]
      cases declared : checkWidth (hi - lo) with
      | error cause => simp [declared] at sliced
      | ok _ =>
          simp only [declared] at sliced
          split at sliced
          · cases sliced
          · next within =>
              dsimp only
              rw [if_neg within]
              exact holds_unsigned sliced (field_bounds b'.val lo (hi - lo))

theorem bit_total {b : Bits} {index : Nat} {v : Bool} (read : b.bit index = .ok v) (b' : Bits) :
    ∃ v', b'.bit index = .ok v' := by
  unfold bit at read ⊢
  split at read
  · cases read
  · next within => exact ⟨_, if_neg within⟩

theorem concatFrom_total {bs bs' : List Bits}
    (widths : List.Forall₂ (fun b b' : Bits => b'.width = b.width) bs bs') {acc acc' : Int}
    {width : Nat} {v : Bits} (joined : concatFrom acc width bs = .ok v)
    (fits : 0 ≤ acc' ∧ acc' < Int.pow 2 width) :
    ∃ v', concatFrom acc' width bs' = .ok v' ∧ (Kind.bits v).Holds (.bits v') := by
  -- What was joined so far may be another number. Only its width is that of the declaration.
  induction widths generalizing acc acc' width with
  | nil => exact holds_unsigned joined fits
  | @cons b b' bs bs' same others ih =>
      rw [concatFrom] at joined ⊢
      rw [same]
      split at joined
      · cases joined
      · next sized =>
          rw [if_neg sized]
          cases declared : checkWidth (width + b.width) with
          | error cause => simp [declared] at joined
          | ok _ =>
              simp only [declared] at joined ⊢
              exact ih joined (append_bounds fits (field_bounds b'.val 0 b.width))

theorem concat_total {bs bs' : List Bits}
    (widths : List.Forall₂ (fun b b' : Bits => b'.width = b.width) bs bs') {v : Bits}
    (joined : concat bs = .ok v) :
    ∃ v', concat bs' = .ok v' ∧ (Kind.bits v).Holds (.bits v') :=
  concatFrom_total widths joined ⟨Int.le_refl 0, by decide⟩

theorem significantBits_le_iff {n : Int} (natural : 0 ≤ n) (width : Nat) :
    significantBits n ≤ width ↔ n < Int.pow 2 width := by
  obtain ⟨n, rfl⟩ := Int.eq_ofNat_of_zero_le natural
  unfold significantBits
  rw [if_neg (Int.not_lt.mpr natural), pow_eq_natCast, Int.ofNat_lt]
  by_cases zero : n = 0
  · subst zero
    exact iff_of_true (Nat.zero_le width) (Nat.two_pow_pos width)
  · rw [if_neg (by omega), Int.toNat_natCast, Nat.succ_le_iff, Nat.log2_lt zero]

theorem lt_pow_significantBits (n : Nat) : (n : Int) < Int.pow 2 (significantBits n) :=
  (significantBits_le_iff (Int.natCast_nonneg n) _).mp (Nat.le_refl _)

end Bits

/-! ## Items that exist -/

theorem Enumeration.itemAt?_eq_some_iff {e : Enumeration} {index : Nat} {item : EnumItem} :
    e.itemAt? index = some item ↔ index < e.size ∧ item = ⟨e, index⟩ := by
  unfold itemAt?
  rw [Option.ite_none_right_eq_some, Option.some.injEq]
  exact and_congr_right fun _ => eq_comm

/-- The enumeration has an item at this position. -/
def EnumItem.Exists (item : EnumItem) : Prop := item.index < item.type.size

/-- If the value is an item, it exists. -/
def Value.Existing : Value → Prop
  | .enum item => item.Exists
  | _ => True

theorem Value.Built.existing {v : Value} (built : v.Built) : v.Existing := by
  cases built with
  | item declared listed =>
      obtain ⟨exists_, rfl⟩ := Enumeration.itemAt?_eq_some_iff.mp listed
      exact exists_
  | _ => trivial

/-- The pattern of an item that exists takes no more bits than its enumeration has. -/
theorem EnumItem.code_bounds {item : EnumItem} (exists_ : item.Exists)
    (declared : Bits.checkWidth item.type.width = .ok ()) :
    0 ≤ item.code ∧ item.code < Int.pow 2 item.type.width := by
  have narrow : item.type.width ≤ Bits.widest := by
    unfold Bits.checkWidth at declared
    split at declared
    · cases declared
    · omega
  have size : item.index < item.type.size := exists_
  unfold code
  cases encoding : item.type.encoding with
  | binary =>
      -- The width is that of the last index, and no index is beyond it.
      have wide : item.type.width =
          Nat.max (Bits.significantBits ((item.type.size - 1 : Nat) : Int)) 1 := by
        simp only [Enumeration.width, encoding]
      have last := Bits.lt_pow_significantBits (item.type.size - 1)
      have enough := Bits.pow_le_pow (wide.symm ▸ Nat.le_max_left _ 1 :
        Bits.significantBits ((item.type.size - 1 : Nat) : Int) ≤ item.type.width)
      dsimp only
      omega
  | oneHot =>
      -- The payload wraps around at its own width, which no pattern reaches.
      have wide : item.type.width = item.type.size := by simp only [Enumeration.width, encoding]
      have power : Int.pow 2 item.index < Int.pow 2 item.type.width := by
        rw [wide]
        exact Bits.pow_lt_pow size
      have payload := Bits.pow_le_pow narrow
      have plain : Bits.toPayload (Int.pow 2 item.index) = Int.pow 2 item.index := by
        have positive := Bits.pow_pos item.index
        have bound : Int.pow 2 Bits.widest * 4 = (Nat.pow 2 Bits.payloadWidth : Nat) := by decide
        unfold Bits.toPayload
        rw [Int.bmod_eq_of_le_mul_two] <;> omega
      dsimp only
      rw [plain]
      exact ⟨Int.le_of_lt (Bits.pow_pos _), power⟩
  | oneCold =>
      -- All ones, and one of them is taken off at its place.
      have wide : item.type.width = item.type.size := by simp only [Enumeration.width, encoding]
      obtain ⟨least, most⟩ := Bits.field_bounds (Int.pow 2 item.type.width - 1) item.index 1
      have power : Int.pow 2 item.index < Int.pow 2 item.type.width := by
        rw [wide]
        exact Bits.pow_lt_pow size
      have positive := Bits.pow_pos item.index
      have single : Bits.field (Int.pow 2 item.type.width - 1) item.index 1 ≤ 1 := by
        have two : Int.pow 2 1 = 2 := by decide
        omega
      have removed := Int.mul_le_mul_of_nonneg_right single (Int.le_of_lt positive)
      have kept := Int.mul_nonneg least (Int.le_of_lt positive)
      dsimp only
      omega

/-! ## Values of one kind -/

/-- What has bits at the start has as many bits later. -/
theorem Value.toBits_total {v v' : Value} {b : Bits} (converted : v.toBits = .ok b)
    (holds : v.kind.Holds v') (existing : v'.Existing) :
    ∃ b', v'.toBits = .ok b' ∧ b'.width = b.width := by
  cases v with
  | bool _ =>
      cases v' with
      | bool c =>
          rw [toBits] at converted ⊢
          obtain ⟨declared, rfl⟩ := Bits.unsigned_spec converted
          refine ⟨_, Bits.unsigned_total declared ?_, rfl⟩
          cases c <;> decide
      | _ => exact holds.elim
  | bits _ =>
      cases v' with
      | bits b' =>
          cases converted
          exact ⟨b', rfl, holds.2.2.1⟩
      | _ => exact holds.elim
  | enum item =>
      cases v' with
      | enum item' =>
          obtain ⟨declared, rfl⟩ := Bits.unsigned_spec converted
          have same : item'.type = item.type := holds
          rw [← same] at declared ⊢
          exact ⟨_, Bits.unsigned_total declared (EnumItem.code_bounds existing declared), rfl⟩
      | _ => exact holds.elim
  | int _ => cases converted
  | highZ => cases converted

theorem Value.allToBits_total {values values' : List Value} {bs : List Bits}
    (converted : Value.allToBits values = .ok bs)
    (parts : List.Forall₂ (fun v v' : Value => ∀ b, v.toBits = .ok b →
      ∃ b', v'.toBits = .ok b' ∧ b'.width = b.width) values values') :
    ∃ bs', Value.allToBits values' = .ok bs' ∧
      List.Forall₂ (fun b b' : Bits => b'.width = b.width) bs bs' := by
  induction parts generalizing bs with
  | nil =>
      cases converted
      exact ⟨[], rfl, .nil⟩
  | @cons v v' values values' part others ih =>
      rw [Value.allToBits] at converted
      split at converted
      · cases converted
      · next b first =>
          split at converted
          · cases converted
          · next bs' rest =>
              cases converted
              obtain ⟨b', first', same⟩ := part b first
              obtain ⟨more, rest', widths⟩ := ih rest
              refine ⟨b' :: more, ?_, .cons same widths⟩
              simp only [Value.allToBits, first', rest']

/-- The range alone decides about another integer. -/
theorem Bits.withVal_of_inRange {b : Bits} {v : Int}
    (inside : ∀ min max, b.min = some min → b.max = some max → min ≤ v ∧ v < max) :
    b.withVal v = .ok { b with val := v } := by
  unfold withVal checked checkRange
  cases least : b.min with
  | none => rfl
  | some min =>
      cases most : b.max with
      | none => rfl
      | some max =>
          have bounds := inside min max least most
          simp only [if_neg (show ¬(v < min ∨ max ≤ v) by omega)]

/-- A value of the kind is accepted. -/
theorem Kind.coerce_total {kind : Kind} {v : Value} (holds : kind.Holds v) :
    ∃ w, kind.coerce v = .ok w := by
  cases kind with
  | any => cases v <;> exact ⟨_, rfl⟩
  | bool =>
      cases v with
      | bool b => exact ⟨_, rfl⟩
      | _ => exact holds.elim
  | int =>
      cases v with
      | int n => exact ⟨_, rfl⟩
      | _ => exact holds.elim
  | bits template =>
      cases v with
      | bits b =>
          obtain ⟨lower, upper, width, inRange⟩ := holds
          have kept : template.withVal b.val = .ok { template with val := b.val } :=
            Bits.withVal_of_inRange fun min max least most =>
              inRange min max (lower.trans least) (upper.trans most)
          refine ⟨.bits { template with val := b.val }, ?_⟩
          simp only [coerce, Value.toInt?, kept, Except.map]
      | _ => exact holds.elim
  | enum type =>
      cases v with
      | enum item =>
          have same : item.type = type := holds
          exact ⟨.enum item, by simp only [coerce, if_pos same]⟩
      | _ => exact holds.elim

end DeltaCycle
