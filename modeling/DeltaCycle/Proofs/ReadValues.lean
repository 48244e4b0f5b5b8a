import DeltaCycle.Proofs.ItemCodes
import DeltaCycle.Proofs.StoredValues

/-!
# Values that are read

Reading checks the form of a text and whether numbers can be held, and nothing else. The
constructors of values see to more, and each part of it may be missing from what is read. Which
operations are then undefined is told by the width of a vector, and by the position of an item and
the encoding of its enumeration.
-/

set_option autoImplicit false

namespace DeltaCycle

open Bits

/-! ## Operations that may be undefined -/

namespace Word

/-- The width of a value, if it has one. -/
def width? : Value → Attempt ValueError (Option Nat)
  | .enum item => do
      let width ← itemWidth item.type
      return some width
  | v => .ok v.width?

/-- Every value as a vector, up to the first that has none. -/
def allToBits : List Value → Attempt ValueError (List Bits)
  | [] => .ok []
  | v :: rest => do
      let b ← toBits v
      let bs ← allToBits rest
      return b :: bs

/-- Joined values. -/
def concatValues (parts : List Value) : Attempt ValueError Bits := do
  let bs ← allToBits parts
  concat bs

end Word

/-! ## What constructors see to -/

namespace Value

variable {v : Value} {parts : List Value}

/-- A vector carries an integer of its range, and its width suffices for that range. An item exists
in an enumeration of distinct items. -/
def WellFormed : Value → Prop
  | .bits b => b.Shape ∧ b.InRange
  | .enum item => (item.type.items ≠ [] ∧ item.type.items.Nodup) ∧ item.Exists
  | _ => True

/-- Payloads have room for the digits of a vector, and for the pattern of an item. -/
def Roomy : Value → Prop
  | .bits b => b.width ≤ widest
  | .enum item => item.Codable
  | _ => True

theorem Built.wellFormed (built : v.Built) : v.WellFormed := by
  have existing := built.existing
  cases built with
  | bits built => exact ⟨built.shape, built.inRange⟩
  | item declared listed =>
      obtain ⟨distinct, rfl⟩ := Enumeration.declare_eq_ok_iff.mp declared
      obtain ⟨-, rfl⟩ := Enumeration.itemAt?_eq_some_iff.mp listed
      exact ⟨distinct, existing⟩
  | _ => trivial

/-! ## Operations are defined -/

/-- Width, vector, digits and name of a value are defined, without overflow and within its
enumeration. -/
structure Defined (v : Value) : Prop where
  width : Word.width? v = .ok v.width?
  vector : Word.toBits v = .ofExcept v.toBits
  digits : ∀ b, v = .bits b → Word.binary b = .ok b.binary
  name : ∀ item, v = .enum item → ∃ name, item.name? = some name
  shown : v.text?.isSome = true ∧ v.describe?.isSome = true

theorem isSome_describe? (b : Bits) : (bits b).describe?.isSome = true := by
  unfold describe?
  dsimp only
  split <;> rfl

theorem Storable.defined (storable : v.Storable) (existing : v.Existing) (roomy : v.Roomy) :
    v.Defined := by
  cases v with
  | bits b =>
      refine ⟨rfl, rfl, ?_, nofun, rfl, isSome_describe? b⟩
      rintro _ ⟨⟩
      exact Word.binary_eq storable.val roomy
  | enum item =>
      have nonempty : 0 < item.type.size := Nat.zero_lt_of_lt existing
      have named : item.name? = some item.type.items[item.index] :=
        List.getElem?_eq_getElem existing
      refine ⟨?_, Word.toBits_eq existing roomy, nofun, ?_, ?_, ?_⟩
      · rw [Word.width?, Word.itemWidth_eq nonempty roomy.1]
        rfl
      · rintro _ ⟨⟩
        exact ⟨_, named⟩
      · exact congrArg Option.isSome named
      · rw [describe?, named]
        rfl
  | bool b =>
      refine ⟨rfl, ?_, nofun, nofun, rfl, rfl⟩
      cases b <;> exact Word.unsigned_eq _ 1
  | int n => exact ⟨rfl, rfl, nofun, nofun, rfl, rfl⟩
  | highZ => exact ⟨rfl, rfl, nofun, nofun, rfl, rfl⟩

theorem Defined.existing (defined : v.Defined) : v.Existing := by
  cases v with
  | enum item =>
      obtain ⟨name, named⟩ := defined.name item rfl
      exact (List.getElem?_eq_some_iff.mp named).1
  | _ => trivial

theorem Defined.roomy (defined : v.Defined) : v.Roomy := by
  cases v with
  | bits b =>
      refine Nat.le_of_not_lt fun wide => ?_
      have digits := defined.digits b rfl
      rw [Word.binary, if_neg (Nat.ne_of_gt (Nat.zero_lt_of_lt wide)), Word.mask_of_wide wide]
        at digits
      cases digits
  | enum item =>
      have existing : item.Exists := defined.existing
      have counted : Word.itemWidth item.type = .ok item.type.width := by
        have width := defined.width
        rw [Word.width?] at width
        cases counted : Word.itemWidth item.type <;> rw [counted] at width <;> cases width
        rfl
      have few := Word.size_lt_of_itemWidth (Nat.zero_lt_of_lt existing) counted
      by_contra cramped
      have vector := defined.vector
      rw [Word.toBits_of_not_codable existing few cramped] at vector
      cases converted : (enum item).toBits <;> rw [converted] at vector <;> cases vector
  | _ => trivial

/-- The operations on a value are defined exactly if it exists and payloads have room for it. -/
theorem Storable.defined_iff (storable : v.Storable) : v.Defined ↔ v.Existing ∧ v.Roomy :=
  ⟨fun defined => ⟨defined.existing, defined.roomy⟩,
    fun ⟨existing, roomy⟩ => storable.defined existing roomy⟩

/-! ## Joined values -/

theorem Storable.fitsWord (storable : v.Storable) (roomy : v.Roomy) {b : Bits}
    (converted : v.toBits = .ok b) : Word.Fits b := by
  cases v with
  | bits b' =>
      cases converted
      exact ⟨roomy, fun _ => storable.val⟩
  | bool _ =>
      have built : Bits.unsigned _ 1 = .ok b := converted
      exact (Bits.Built.unsigned built).fitsWord
  | enum item =>
      have built : Bits.unsigned item.code item.type.width = .ok b := converted
      exact (Bits.Built.unsigned built).fitsWord
  | _ => cases converted

theorem allToBits_eq (defined : ∀ part ∈ parts, part.Defined) :
    Word.allToBits parts = .ofExcept (allToBits parts) := by
  induction parts with
  | nil => rfl
  | cons part rest ih =>
      have others := ih fun part listed => defined part (List.mem_cons_of_mem _ listed)
      rw [Word.allToBits, allToBits, (defined part List.mem_cons_self).vector, others]
      cases part.toBits with
      | error cause => rfl
      | ok b => cases allToBits rest <;> rfl

theorem mem_of_allToBits {bs : List Bits} {b : Bits} (converted : allToBits parts = .ok bs)
    (listed : b ∈ bs) : ∃ part ∈ parts, part.toBits = .ok b := by
  induction parts generalizing bs with
  | nil =>
      cases converted
      cases listed
  | cons part rest ih =>
      rw [allToBits] at converted
      split at converted
      · cases converted
      · next first converted' =>
          split at converted
          · cases converted
          · next others rest_converted =>
              cases converted
              obtain rfl | listed := List.mem_cons.mp listed
              · exact ⟨part, List.mem_cons_self, converted'⟩
              · obtain ⟨part', listed', same⟩ := ih rest_converted listed
                exact ⟨part', List.mem_cons_of_mem _ listed', same⟩

theorem concatValues_eq (defined : ∀ part ∈ parts, part.Storable ∧ part.Defined) :
    Word.concatValues parts = .ofExcept (concat parts) := by
  rw [Word.concatValues, allToBits_eq fun part listed => (defined part listed).2, concat]
  cases result : allToBits parts with
  | error cause => rfl
  | ok bs =>
      refine Word.concat_eq fun b listed => ?_
      obtain ⟨part, listed', same⟩ := mem_of_allToBits result listed
      obtain ⟨storable, defined'⟩ := defined part listed'
      exact storable.fitsWord defined'.roomy same

theorem WellFormed.existing (wellFormed : v.WellFormed) : v.Existing := by
  cases v with
  | enum item => exact wellFormed.2
  | _ => trivial

theorem WellFormed.roomy_bits {b : Bits} (wellFormed : (bits b).WellFormed) : (bits b).Roomy :=
  wellFormed.1.narrow

/-- Whatever is read, its numbers can be held, and every value of which this is true can be read.
What constructors give is well formed besides: an item exists, and payloads have room for a vector.
The operations on what is read are defined exactly if it exists and payloads have room for it, and
values with defined operations can be joined. -/
theorem reading_checks_the_form_alone {text : String} {v : Value} (read : decode? text = some v) :
    (v.Storable ∧ ∀ w : Value, w.Storable → ∃ text, decode? text = some w) ∧
      (v.Built → v.WellFormed) ∧
      (v.WellFormed → v.Existing ∧ ∀ b, v = .bits b → v.Roomy) ∧
      (v.Defined ↔ v.Existing ∧ v.Roomy) ∧
      ∀ parts : List Value, v ∈ parts → (∀ part ∈ parts, part.Storable ∧ part.Defined) →
        Word.concatValues parts = .ofExcept (concat parts) := by
  have storable := storable_of_decode? read
  refine ⟨⟨storable, fun w held => ⟨w.encode, decode?_encode held⟩⟩, Built.wellFormed,
    fun wellFormed => ⟨wellFormed.existing, ?_⟩, storable.defined_iff,
    fun parts _ => concatValues_eq⟩
  rintro b rfl
  exact wellFormed.roomy_bits

/-- Five in three bits is read, well formed and joined with an item of two in five bits. -/
theorem five_is_read_and_joined_with_an_item :
    decode? "\x7b\"Bits\":\x7b\"val\":5,\"min\":0,\"max\":8,\"nrbits\":3\x7d\x7d" =
        some (.bits ⟨5, some 0, some 8, 3⟩) ∧
      (Value.bits ⟨5, some 0, some 8, 3⟩).WellFormed ∧
        Word.binary ⟨5, some 0, some 8, 3⟩ = .ok "101" ∧
          Word.concatValues [.bits ⟨5, some 0, some 8, 3⟩, .enum ⟨⟨"e", ["a", "b"], .oneHot⟩, 1⟩] =
            .ok ⟨22, some 0, some 32, 5⟩ := by
  have read : decode? "\x7b\"Bits\":\x7b\"val\":5,\"min\":0,\"max\":8,\"nrbits\":3\x7d\x7d" =
      some (.bits ⟨5, some 0, some 8, 3⟩) := by decide +kernel
  obtain ⟨⟨held, -⟩, wellFormed, sound, defined, joined⟩ := reading_checks_the_form_alone read
  have built : Bits.unsigned 5 3 = .ok ⟨5, some 0, some 8, 3⟩ := rfl
  have formed := wellFormed (.bits (.unsigned built))
  obtain ⟨existing, roomy⟩ := sound formed
  have five := defined.mpr ⟨existing, roomy _ rfl⟩
  have item : (enum ⟨⟨"e", ["a", "b"], .oneHot⟩, 1⟩).Storable := show 1 < Word.countLimit by decide
  have item_defined : (enum ⟨⟨"e", ["a", "b"], .oneHot⟩, 1⟩).Defined :=
    item.defined (show 1 < 2 by decide) ⟨by decide, show 1 < payloadWidth by decide⟩
  refine ⟨read, formed, (five.digits _ rfl).trans rfl,
    (joined _ List.mem_cons_self fun part listed => ?_).trans rfl⟩
  obtain rfl | listed := List.mem_cons.mp listed
  · exact ⟨held, five⟩
  · cases List.mem_singleton.mp listed
    exact ⟨item, item_defined⟩

/-- A vector may be read beyond its bounds, with one bound alone, and wider than digits are defined
for; an item may be read beyond the items, and from an enumeration with none or with one twice. -/
theorem ill_formed_values_are_read :
    (decode? "\x7b\"Bits\":\x7b\"val\":9,\"min\":0,\"max\":4,\"nrbits\":2\x7d\x7d" =
        some (.bits ⟨9, some 0, some 4, 2⟩) ∧
      ¬(Value.bits ⟨9, some 0, some 4, 2⟩).WellFormed) ∧
    (decode? "\x7b\"Bits\":\x7b\"val\":1,\"min\":0,\"max\":null,\"nrbits\":1\x7d\x7d" =
        some (.bits ⟨1, some 0, none, 1⟩) ∧
      ¬(Value.bits ⟨1, some 0, none, 1⟩).WellFormed) ∧
    (decode? "\x7b\"Bits\":\x7b\"val\":1,\"min\":0,\"max\":2,\"nrbits\":200\x7d\x7d" =
        some (.bits ⟨1, some 0, some 2, 200⟩) ∧
      Word.binary ⟨1, some 0, some 2, 200⟩ = .error .undefined) ∧
    (decode? ("\x7b\"Enum\":\x7b\"ty\":\x7b\"name\":\"e\",\"items\":[\"a\",\"a\"]," ++
        "\"encoding\":\"binary\"\x7d,\"index\":2\x7d\x7d") =
        some (.enum ⟨⟨"e", ["a", "a"], .binary⟩, 2⟩) ∧
      EnumItem.name? ⟨⟨"e", ["a", "a"], .binary⟩, 2⟩ = none ∧
      ¬["a", "a"].Nodup) ∧
    decode? ("\x7b\"Enum\":\x7b\"ty\":\x7b\"name\":\"e\",\"items\":[]," ++
        "\"encoding\":\"binary\"\x7d,\"index\":0\x7d\x7d") =
        some (.enum ⟨⟨"e", [], .binary⟩, 0⟩) ∧
      Word.itemWidth ⟨"e", [], .binary⟩ = .error .undefined := by
  refine ⟨⟨by decide +kernel, fun ⟨_, inRange⟩ => ?_⟩, ⟨by decide +kernel, fun ⟨shape, _⟩ => ?_⟩,
    ⟨by decide +kernel, by rfl⟩, ⟨by decide +kernel, by rfl, by decide⟩, by decide +kernel, by rfl⟩
  · obtain ⟨-, above⟩ := inRange 0 4 rfl rfl
    exact absurd above (by decide)
  · cases shape with
    | unsized least => cases least
    | sized _ most => cases most

end Value

end DeltaCycle
