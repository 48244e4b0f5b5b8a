import DeltaCycle.Proofs.Payloads
import DeltaCycle.Proofs.PrintedTexts
import DeltaCycle.Value.Codec

/-!
# Stored values

A value is read back from its text as it was written, with the bounds and the width of a vector and
the enumeration of an item, which equality of values does not see or sees in part only. The one
condition is that its numbers can be held: integers in a payload, and widths and positions in a
count. This is also all that is known of a value that was read.
-/

set_option autoImplicit false

namespace DeltaCycle

namespace Json

variable {n : Int} {n? : Option Int} {count : Nat}

/-! ## What is written -/

theorem legible_ofInt? (n? : Option Int) : (ofInt? n?).Legible := by
  cases n? with
  | none => exact .null
  | some n => exact .integer _ _

theorem legible_ofMembers {members : List (String × Json)}
    (all : ∀ member ∈ members, member.2.Legible) : (ofMembers members).Legible := by
  constructor <;> intro member mapped <;>
    obtain ⟨⟨name, value⟩, listed, rfl⟩ := List.mem_map.mp mapped
  · rfl
  · exact all (name, value) listed

/-! ## Numbers -/

theorem payload?_ofInt (holds : Word.Holds n) : (ofInt n).payload? = some n := by
  have signed : (if decide (n < 0) = true then -(n.natAbs : Int) else n.natAbs) = n := by
    by_cases negative : n < 0
    · rw [if_pos (decide_eq_true negative)]
      omega
    · rw [if_neg (by simpa using negative)]
      omega
  rw [ofInt, payload?]
  simp only [signed]
  exact if_pos holds

theorem optionalPayload?_ofInt? (holds : ∀ n, n? = some n → Word.Holds n) :
    optionalPayload? (some (ofInt? n?)) = some n? := by
  cases n? with
  | none => rfl
  | some n =>
      have read := payload?_ofInt (holds n rfl)
      rw [ofInt?, optionalPayload?, read]
      · rfl
      · exact nofun

theorem count?_ofNat (few : count < Word.countLimit) : (ofNat count).count? = some count :=
  if_pos few

theorem contents?_map (items : List String) :
    contents? (.array (items.map ofString)) = some items := by
  rw [contents?]
  induction items with
  | nil => rfl
  | cons item items ih => rw [List.map_cons, List.mapM_cons, ih]; rfl

/-! ## What is read -/

theorem holds_of_payload? {j : Json} (read : j.payload? = some n) : Word.Holds n := by
  cases j with
  | integer negative magnitude =>
      unfold payload? at read
      dsimp only at read
      generalize (if negative then -(magnitude : Int) else magnitude) = m at read
      split at read
      · next holds =>
          cases read
          exact holds
      · cases read
  | _ => cases read

theorem holds_of_optionalPayload? {j? : Option Json} (read : optionalPayload? j? = some n?)
    (present : n? = some n) : Word.Holds n := by
  unfold optionalPayload? at read
  split at read
  · cases read
    cases present
  · cases read
    cases present
  · obtain ⟨m, payload, rfl⟩ := Option.map_eq_some_iff.mp read
    cases present
    exact holds_of_payload? payload

theorem count?_lt {j : Json} (read : j.count? = some count) : count < Word.countLimit := by
  unfold count? at read
  split at read
  · split at read
    · next few =>
        cases read
        exact few
    · cases read
  · cases read

end Json

namespace Bits

/-- The integers of the vector have payloads, and its width is a count that can be held. -/
structure Storable (b : Bits) : Prop where
  val : Word.Holds b.val
  min : ∀ n, b.min = some n → Word.Holds n
  max : ∀ n, b.max = some n → Word.Holds n
  width : b.width < Word.countLimit

theorem legible_toJson (b : Bits) : b.toJson.Legible := by
  refine Json.legible_ofMembers ?_
  simp only [List.forall_mem_cons, List.not_mem_nil, false_implies, implies_true, and_true]
  exact ⟨.integer _ _, Json.legible_ofInt? _, Json.legible_ofInt? _, .integer _ _⟩

theorem ofJson?_toJson {b : Bits} (storable : b.Storable) : ofJson? b.toJson = some b := by
  have fields : b.toJson.fields? ["val", "min", "max", "nrbits"] =
      some [some (.ofInt b.val), some (.ofInt? b.min), some (.ofInt? b.max),
        some (.ofNat b.width)] := rfl
  rw [ofJson?, fields]
  simp [Json.payload?_ofInt storable.val, Json.optionalPayload?_ofInt? storable.min,
    Json.optionalPayload?_ofInt? storable.max, Json.count?_ofNat storable.width]

/-- What is read as a vector can be held, whatever else it is. -/
theorem storable_of_ofJson? {j : Json} {b : Bits} (read : ofJson? j = some b) : b.Storable := by
  unfold ofJson? at read
  obtain ⟨fields, -, read⟩ := Option.bind_eq_some_iff.mp read
  split at read
  · obtain ⟨val, val_read, read⟩ := Option.bind_eq_some_iff.mp read
    obtain ⟨min, min_read, read⟩ := Option.bind_eq_some_iff.mp read
    obtain ⟨max, max_read, read⟩ := Option.bind_eq_some_iff.mp read
    obtain ⟨width, width_read, read⟩ := Option.bind_eq_some_iff.mp read
    cases read
    exact ⟨Json.holds_of_payload? val_read, fun _ => Json.holds_of_optionalPayload? min_read,
      fun _ => Json.holds_of_optionalPayload? max_read, Json.count?_lt width_read⟩
  · cases read

/-- The bounds and the width of a built vector can be held. -/
theorem Built.storable_iff {b : Bits} (built : b.Built) : b.Storable ↔ Word.Holds b.val := by
  refine ⟨Storable.val, fun holds => ?_⟩
  cases built.shape with
  | unsized least most width =>
      refine ⟨holds, fun n present => ?_, fun n present => ?_, by rw [width]; decide⟩
      · cases least.symm.trans present
      · cases most.symm.trans present
  | @sized min max least most enough narrow =>
      -- The bounds lie within the powers of a width that can be declared, and those in a payload.
      have inside := built.inRange min max least most
      have bound : Int.pow 2 b.width ≤ Int.pow 2 widest := pow_le_pow narrow
      have half : Int.pow 2 (b.width - 1) ≤ Int.pow 2 widest :=
        pow_le_pow (Nat.le_trans (Nat.sub_le _ _) narrow)
      have payload : Int.pow 2 widest ≤ greatestPayload ∧ leastPayload ≤ -(Int.pow 2 widest) := by
        decide
      have ends : Word.Holds min ∧ Word.Holds max := by
        obtain ⟨-, enough⟩ := enough
        unfold Word.Holds at holds ⊢
        split at enough <;> omega
      refine ⟨holds, fun n present => ?_, fun n present => ?_,
        Nat.lt_of_le_of_lt narrow (by decide)⟩
      · cases least.symm.trans present
        exact ends.1
      · cases most.symm.trans present
        exact ends.2

end Bits

namespace Enumeration

theorem legible_toJson (e : Enumeration) : e.toJson.Legible := by
  refine Json.legible_ofMembers ?_
  simp only [List.forall_mem_cons, List.not_mem_nil, false_implies, implies_true, and_true]
  refine ⟨.string _, .array fun element listed => ?_, .string _⟩
  obtain ⟨item, -, rfl⟩ := List.mem_map.mp listed
  exact .string item

theorem ofText?_text (encoding : Encoding) : Encoding.ofText? encoding.text = some encoding := by
  cases encoding <;> rfl

theorem ofJson?_toJson (e : Enumeration) : ofJson? e.toJson = some e := by
  have fields : e.toJson.fields? ["name", "items", "encoding"] =
      some [some (.ofString e.name), some (.array (e.items.map .ofString)),
        some (.ofString e.encoding.text)] := rfl
  rw [ofJson?, fields]
  simp [Json.ofString, Json.content?, Json.choice?, Json.contents?_map, ofText?_text]

end Enumeration

namespace EnumItem

theorem legible_toJson (item : EnumItem) : item.toJson.Legible := by
  refine Json.legible_ofMembers ?_
  simp only [List.forall_mem_cons, List.not_mem_nil, false_implies, implies_true, and_true]
  exact ⟨item.type.legible_toJson, .integer _ _⟩

theorem ofJson?_toJson {item : EnumItem} (few : item.index < Word.countLimit) :
    ofJson? item.toJson = some item := by
  have fields : item.toJson.fields? ["ty", "index"] =
      some [some item.type.toJson, some (.ofNat item.index)] := rfl
  rw [ofJson?, fields]
  simp [Enumeration.ofJson?_toJson, Json.count?_ofNat few]

theorem index_lt_of_ofJson? {j : Json} {item : EnumItem} (read : ofJson? j = some item) :
    item.index < Word.countLimit := by
  unfold ofJson? at read
  obtain ⟨fields, -, read⟩ := Option.bind_eq_some_iff.mp read
  split at read
  · obtain ⟨type, -, read⟩ := Option.bind_eq_some_iff.mp read
    obtain ⟨index, index_read, read⟩ := Option.bind_eq_some_iff.mp read
    cases read
    exact Json.count?_lt index_read
  · cases read

end EnumItem

namespace Value

/-- Whatever the value consists of can be held: its integers have payloads, and its counts are
small enough. -/
def Storable : Value → Prop
  | bool _ | highZ => True
  | int n => Word.Holds n
  | bits b => b.Storable
  | enum item => item.index < Word.countLimit

variable {v w : Value}

theorem legible_toJson (v : Value) : v.toJson.Legible := by
  cases v with
  | highZ => exact .string "Z"
  | bool b => exact Json.legible_ofMembers (List.forall_mem_singleton.mpr (.bool b))
  | int n => exact Json.legible_ofMembers (List.forall_mem_singleton.mpr (.integer _ _))
  | bits b => exact Json.legible_ofMembers (List.forall_mem_singleton.mpr b.legible_toJson)
  | enum item => exact Json.legible_ofMembers (List.forall_mem_singleton.mpr item.legible_toJson)

theorem ofJson?_toJson (storable : v.Storable) : ofJson? v.toJson = some v := by
  cases v with
  | highZ => rfl
  | bool b => rfl
  | int n =>
      have read := Json.payload?_ofInt storable
      exact congrArg (Option.map int) read
  | bits b =>
      have read := Bits.ofJson?_toJson storable
      exact congrArg (Option.map bits) read
  | enum item =>
      have read := EnumItem.ofJson?_toJson storable
      exact congrArg (Option.map enum) read

theorem decode?_encode (storable : v.Storable) : decode? v.encode = some v := by
  rw [decode?, encode, Json.parse?_text v.legible_toJson]
  exact ofJson?_toJson storable

theorem storable_of_decode? {text : String} (read : decode? text = some v) : v.Storable := by
  obtain ⟨j, -, read⟩ := Option.bind_eq_some_iff.mp read
  unfold ofJson? at read
  split at read
  · cases read
    trivial
  · cases read
    trivial
  · cases read
    trivial
  · obtain ⟨n, content, rfl⟩ := Option.map_eq_some_iff.mp read
    exact Json.holds_of_payload? content
  · obtain ⟨b, content, rfl⟩ := Option.map_eq_some_iff.mp read
    exact Bits.storable_of_ofJson? content
  · obtain ⟨item, content, rfl⟩ := Option.map_eq_some_iff.mp read
    exact EnumItem.index_lt_of_ofJson? content
  · cases read

theorem Built.storable_iff (built : v.Built) :
    v.Storable ↔ (∀ n, v.toInt? = some n → Word.Holds n) ∧
      ∀ item, v = .enum item → item.index < Word.countLimit := by
  cases built with
  | bool b => cases b <;> simp [Storable, toInt?] <;> decide
  | int n => simp [Storable, toInt?]
  | bits built => simp [Storable, toInt?, built.storable_iff]
  | item declared built => simp [Storable, toInt?]
  | highZ => simp [Storable, toInt?]

/-- A value is read back from its text as it was, down to bounds and widths that equality of values
does not see, if its numbers can be held. So distinct values have distinct texts. Of a value that
constructors give, only the integer and the position of the item are to be looked at. -/
theorem every_value_is_read_back_from_its_text :
    (∀ v : Value, v.Storable → decode? v.encode = some v) ∧
      (∀ v w : Value, v.Storable → w.Storable → v.encode = w.encode → v = w) ∧
      ∀ v : Value, v.Built →
        (v.Storable ↔ (∀ n, v.toInt? = some n → Word.Holds n) ∧
          ∀ item, v = .enum item → item.index < Word.countLimit) := by
  refine ⟨fun v => decode?_encode, fun v w storable storable' same => ?_,
    fun v => Built.storable_iff⟩
  have read := decode?_encode storable
  rw [same, decode?_encode storable'] at read
  exact (Option.some.inj read).symm

/-- An item is read back whose enumeration has a quotation mark for its name. Three in four bits and
three without a width are equal and have distinct texts. -/
theorem a_quotation_mark_is_read_back :
    decode? (encode (.enum ⟨⟨"\"", ["é", "\n"], .oneCold⟩, 1⟩)) =
        some (.enum ⟨⟨"\"", ["é", "\n"], .oneCold⟩, 1⟩) ∧
      same (.bits ⟨3, some 0, some 16, 4⟩) (.bits ⟨3, none, none, 0⟩) = true ∧
        encode (.bits ⟨3, some 0, some 16, 4⟩) ≠ encode (.bits ⟨3, none, none, 0⟩) := by
  obtain ⟨read, told, built⟩ := every_value_is_read_back_from_its_text
  have declared : Enumeration.declare "\"" ["é", "\n"] .oneCold =
      .ok ⟨"\"", ["é", "\n"], .oneCold⟩ := rfl
  have listed : Enumeration.itemAt? ⟨"\"", ["é", "\n"], .oneCold⟩ 1 =
      some ⟨⟨"\"", ["é", "\n"], .oneCold⟩, 1⟩ := rfl
  have sized : Bits.unsigned 3 4 = .ok ⟨3, some 0, some 16, 4⟩ := rfl
  have three : ∀ n : Int, some 3 = some n → Word.Holds n := by
    rintro _ ⟨⟩
    decide
  refine ⟨read _ ((built _ (.item declared listed)).mpr ⟨nofun, ?_⟩), rfl, fun equal => ?_⟩
  · rintro _ ⟨⟩
    decide
  · cases told _ _ ((built _ (.bits (.unsigned sized))).mpr ⟨three, nofun⟩)
      ((built _ (.bits (.unbounded 3))).mpr ⟨three, nofun⟩) equal

end Value

end DeltaCycle
