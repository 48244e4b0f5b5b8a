import DeltaCycle.Proofs.Widths

/-!
# Coercion

A kind takes what floats, and of the other values those that it has a representation for. A number
outside the range that a kind imposes is refused with that range, and everything else for what it
is. What was taken has kept its number, and is taken again as it is.
-/

set_option autoImplicit false

namespace DeltaCycle

theorem Bits.withVal_of_outside {b : Bits} {v min max : Int} (least : b.min = some min)
    (most : b.max = some max) (outside : v < min ∨ max ≤ v) :
    b.withVal v = .error (.outOfBounds v min max) := by
  unfold withVal checked checkRange
  simp only [least, most, if_pos outside]

namespace Kind

variable {kind : Kind} {template : Bits} {type : Enumeration} {v w : Value} {n min max : Int}

/-! ## What a kind takes -/

/-- The range that the kind imposes on numbers: the least one, and the first one beyond it. Bounds
make a range together only. -/
def range? : Kind → Option (Int × Int)
  | bool => some (0, 2)
  | bits template =>
      match template.min, template.max with
      | some min, some max => some (min, max)
      | _, _ => none
  | int | enum _ | any => none

/-- The values that the kind takes: what floats, and the values that it has a representation for. -/
def Takes (kind : Kind) (v : Value) : Prop :=
  v = .highZ ∨
    match kind with
    | any => True
    | bool => (∃ b, v = .bool b) ∨ v.toInt? = some 0 ∨ v.toInt? = some 1
    | int => ∃ n, v.toInt? = some n
    | bits template => ∃ n, v.toInt? = some n ∧
        ∀ min max, template.min = some min → template.max = some max → min ≤ n ∧ n < max
    | enum type => ∃ item, v = .enum item ∧ item.type = type

/-- The value has a number that lies outside the range of the kind. -/
def Exceeds (kind : Kind) (v : Value) (n min max : Int) : Prop :=
  v.toInt? = some n ∧ kind.range? = some (min, max) ∧ (n < min ∨ max ≤ n)

theorem range?_bits_iff :
    (bits template).range? = some (min, max) ↔
      template.min = some min ∧ template.max = some max := by
  obtain ⟨_, lower, upper, _⟩ := template
  cases lower <;> cases upper <;> simp [range?]

/-- No value is taken whose number lies outside the range. -/
theorem Exceeds.not_takes (exceeds : kind.Exceeds v n min max) : ¬kind.Takes v := by
  obtain ⟨numeric, range, outside⟩ := exceeds
  rintro (rfl | taken)
  · cases numeric
  · cases kind with
    | bool =>
        cases range
        obtain ⟨b, rfl⟩ | zero | one := taken
        · cases numeric
          cases b <;> simp at outside
        · cases numeric.symm.trans zero
          simp at outside
        · cases numeric.symm.trans one
          simp at outside
    | bits template =>
        obtain ⟨m, numeric', inside⟩ := taken
        cases numeric.symm.trans numeric'
        obtain ⟨least, most⟩ := range?_bits_iff.mp range
        have bounds := inside min max least most
        omega
    | _ => cases range

/-! ## What becomes of values -/

/-- What becomes of a value: it is taken, with its number and for good, its number is refused, or
the value is refused for what it is. -/
inductive Outcome (kind : Kind) (v : Value) : Prop where
  | taken (w : Value) (takes : kind.Takes v) (restated : kind.coerce v = .ok w)
      (number : w.toInt? = v.toInt?) (again : kind.coerce w = .ok w)
  | outside (n min max : Int) (exceeds : kind.Exceeds v n min max)
      (refused : kind.coerce v = .error (.outOfBounds n min max))
  | foreign (strange : ¬kind.Takes v) (within : ∀ n min max, ¬kind.Exceeds v n min max)
      (refused : kind.coerce v = .error (kind.mismatch v))

theorem outcome_bool (numeric : v.toInt? = some n) : bool.Outcome v := by
  have restated := coerce_bool numeric
  by_cases zero : n = 0
  · subst zero
    exact .taken (.bool false) (.inr (.inr (.inl numeric))) restated numeric.symm rfl
  · by_cases one : n = 1
    · subst one
      exact .taken (.bool true) (.inr (.inr (.inr numeric))) restated numeric.symm rfl
    · rw [if_neg zero, if_neg one] at restated
      exact .outside n 0 2 ⟨numeric, rfl, by omega⟩ restated

theorem outcome_bits (numeric : v.toInt? = some n) : (bits template).Outcome v := by
  have restated : (bits template).coerce v = _ := coerce_bits numeric
  by_cases inside :
      ∀ min max, template.min = some min → template.max = some max → min ≤ n ∧ n < max
  · have kept := Bits.withVal_of_inRange inside
    rw [kept] at restated
    refine .taken _ (.inr ⟨n, numeric, inside⟩) restated numeric.symm ?_
    have again : ({ template with val := n } : Bits).InRange := inside
    exact (coerce_bits rfl).trans (congrArg (Except.map Value.bits) (Bits.withVal_of_inRange again))
  · push Not at inside
    obtain ⟨min, max, least, most, beyond⟩ := inside
    have outside : n < min ∨ max ≤ n := by
      by_contra within
      omega
    rw [Bits.withVal_of_outside least most outside] at restated
    exact .outside n min max ⟨numeric, range?_bits_iff.mpr ⟨least, most⟩, outside⟩ restated

/-- An enumeration imposes no range. -/
theorem outcome_enum (solid : v ≠ .highZ) : (enum type).Outcome v := by
  by_cases item : ∃ item, v = .enum item ∧ item.type = type
  · obtain ⟨item, rfl, same⟩ := item
    have restated : (enum type).coerce (.enum item) = .ok (.enum item) := if_pos same
    exact .taken _ (.inr ⟨item, rfl, same⟩) restated rfl restated
  · refine .foreign (not_or.mpr ⟨solid, item⟩) (fun _ _ _ exceeds => nomatch exceeds.2.1) ?_
    cases v with
    | enum other => exact if_neg fun same => item ⟨other, rfl, same⟩
    | highZ => exact absurd rfl solid
    | _ => rfl

/-- Items are strange to kinds of numbers. -/
theorem outcome_of_item (item : EnumItem) (strange : ¬kind.Takes (.enum item))
    (refused : kind.coerce (.enum item) = .error (kind.mismatch (.enum item))) :
    kind.Outcome (.enum item) :=
  .foreign strange (fun _ _ _ exceeds => nomatch exceeds.1) refused

theorem outcome (kind : Kind) (v : Value) : kind.Outcome v := by
  by_cases floats : v = .highZ
  · subst floats
    exact .taken .highZ (.inl rfl) rfl rfl rfl
  · cases kind with
    | any => exact .taken v (.inr trivial) (coerce_any v) rfl (coerce_any v)
    | enum type => exact outcome_enum floats
    | bool =>
        cases numeric : v.toInt? with
        | some n => exact outcome_bool numeric
        | none =>
            obtain ⟨item, rfl⟩ := Value.item_of_toInt?_eq_none numeric floats
            exact outcome_of_item item (by rintro (_ | ⟨_, _⟩ | _ | _) <;> contradiction) rfl
    | int =>
        cases numeric : v.toInt? with
        | some n =>
            exact .taken (.int n) (.inr ⟨n, numeric⟩) (coerce_int numeric) numeric.symm rfl
        | none =>
            obtain ⟨item, rfl⟩ := Value.item_of_toInt?_eq_none numeric floats
            exact outcome_of_item item (by rintro (_ | ⟨_, _⟩) <;> contradiction) rfl
    | bits template =>
        cases numeric : v.toInt? with
        | some n => exact outcome_bits numeric
        | none =>
            obtain ⟨item, rfl⟩ := Value.item_of_toInt?_eq_none numeric floats
            exact outcome_of_item item (by rintro (_ | ⟨_, _, _⟩) <;> contradiction) rfl

/-- A kind takes exactly its values. A number outside the range that it imposes is refused as such,
and every other value as one of a different kind. What was taken has the number that it had, and it
is taken again without any change. -/
theorem coercion_takes_the_values_of_the_kind_for_good (kind : Kind) (v : Value) :
    ((∃ w, kind.coerce v = .ok w) ↔ kind.Takes v) ∧
      (∀ n min max, kind.coerce v = .error (.outOfBounds n min max) ↔ kind.Exceeds v n min max) ∧
      (kind.coerce v = .error (.typeMismatch kind.text v.kindName) ↔
        ¬kind.Takes v ∧ ¬∃ n min max, kind.Exceeds v n min max) ∧
      ∀ w, kind.coerce v = .ok w → w.toInt? = v.toInt? ∧ kind.coerce w = .ok w := by
  cases kind.outcome v with
  | taken w takes restated number again =>
      refine ⟨iff_of_true ⟨w, restated⟩ takes, fun n min max => ?_, ?_, ?_⟩
      · exact iff_of_false (fun refused => nomatch restated.symm.trans refused)
          fun exceeds => exceeds.not_takes takes
      · exact iff_of_false (fun refused => nomatch restated.symm.trans refused)
          fun ⟨strange, _⟩ => strange takes
      · intro w' restated'
        cases restated.symm.trans restated'
        exact ⟨number, again⟩
  | outside n min max exceeds refused =>
      have untaken (w : Value) : kind.coerce v ≠ .ok w := by
        rw [refused]
        nofun
      refine ⟨iff_of_false (fun ⟨w, restated⟩ => untaken w restated) exceeds.not_takes, ?_, ?_,
        fun w restated => absurd restated (untaken w)⟩
      · intro n' min' max'
        constructor
        · intro refused'
          cases refused.symm.trans refused'
          exact exceeds
        · rintro ⟨numeric, range, -⟩
          cases exceeds.1.symm.trans numeric
          cases exceeds.2.1.symm.trans range
          exact refused
      · exact iff_of_false (fun refused' => nomatch refused.symm.trans refused')
          fun ⟨_, within⟩ => within ⟨n, min, max, exceeds⟩
  | foreign strange within refused =>
      have untaken (w : Value) : kind.coerce v ≠ .ok w := by
        rw [refused]
        nofun
      refine ⟨iff_of_false (fun ⟨w, restated⟩ => untaken w restated) strange, ?_, ?_,
        fun w restated => absurd restated (untaken w)⟩
      · intro n min max
        exact iff_of_false (fun refused' => nomatch refused.symm.trans refused') (within n min max)
      · exact iff_of_true refused ⟨strange, fun ⟨n, min, max, exceeds⟩ => within n min max exceeds⟩

/-- A boolean in a vector of a range is a vector of that range, and remains so; a two is beyond it.
-/
theorem a_boolean_becomes_a_vector_of_the_range :
    (bits ⟨0, some (-1), some 2, 3⟩).coerce (.bool true) = .ok (.bits ⟨1, some (-1), some 2, 3⟩) ∧
      (bits ⟨0, some (-1), some 2, 3⟩).coerce (.bits ⟨1, some (-1), some 2, 3⟩) =
        .ok (.bits ⟨1, some (-1), some 2, 3⟩) ∧
        (bits ⟨0, some (-1), some 2, 3⟩).coerce (.int 2) = .error (.outOfBounds 2 (-1) 2) := by
  have restated : (bits ⟨0, some (-1), some 2, 3⟩).coerce (.bool true) =
      .ok (.bits ⟨1, some (-1), some 2, 3⟩) := rfl
  obtain ⟨-, -, -, kept⟩ :=
    coercion_takes_the_values_of_the_kind_for_good (bits ⟨0, some (-1), some 2, 3⟩) (.bool true)
  obtain ⟨-, exceeds, -⟩ :=
    coercion_takes_the_values_of_the_kind_for_good (bits ⟨0, some (-1), some 2, 3⟩) (.int 2)
  exact ⟨restated, (kept _ restated).2, (exceeds 2 (-1) 2).mpr ⟨rfl, rfl, .inr (Int.le_refl 2)⟩⟩

end Kind

end DeltaCycle
