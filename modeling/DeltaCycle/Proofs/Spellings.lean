import DeltaCycle.Timescale
import Mathlib.Data.List.TakeWhile

/-!
# Ways of writing a timescale

A timescale is written as decimal digits and the symbol of a unit, with any blanks around and
between them. Texts of this form are read, if the digits make a magnitude that a timescale may have,
and all others are refused.
-/

set_option autoImplicit false

namespace DeltaCycle

/-- No digit is blank. -/
theorem Text.isBlank_of_isDigit {c : Char} (digit : isDigit c = true) : isBlank c = false := by
  simp only [isDigit, Bool.and_eq_true, decide_eq_true_eq, Char.le_def, UInt32.le_iff_toNat_le]
    at digit
  simp only [isBlank, Char.toNat]
  grind

namespace TimeUnit

/-- A symbol consists of letters and ends in the one of the second. -/
theorem symbol_spec (unit : TimeUnit) :
    (∃ c rest, unit.symbol.toList = c :: rest ∧ Text.isBlank c = false ∧
      Text.isDigit c = false) ∧ unit.symbol.toList.getLast? = some 's' := by
  cases unit <;> exact ⟨⟨_, _, rfl, by decide, by decide⟩, rfl⟩

theorem ofSymbol?_eq_some_iff {cs : List Char} {unit : TimeUnit} :
    ofSymbol? cs = some unit ↔ cs = unit.symbol.toList := by
  constructor
  · intro found
    unfold ofSymbol? at found
    split at found <;> cases found <;> rfl
  · rintro rfl
    cases unit <;> rfl

theorem trim_symbol (unit : TimeUnit) : Text.trim unit.symbol.toList = unit.symbol.toList := by
  cases unit <;> rfl

end TimeUnit

namespace Timescale

/-- A way of writing an amount of a unit: decimal digits, the symbol of the unit, and blanks around
and between them. -/
structure Spelling where
  before : List Char
  digits : List Char
  between : List Char
  unit : TimeUnit
  after : List Char
  blank : ∀ c ∈ before ++ between ++ after, Text.isBlank c = true
  numeral : digits ≠ []
  decimal : ∀ c ∈ digits, c.isDigit = true

namespace Spelling

/-- What is written. -/
def chars (s : Spelling) : List Char :=
  s.before ++ (s.digits ++ (s.between ++ s.unit.symbol.toList)) ++ s.after

/-- The amount that is meant. -/
def amount (s : Spelling) : Nat := Nat.ofDigitChars 10 s.digits 0

variable {s : Spelling}

theorem blank_between (s : Spelling) : ∀ c ∈ s.between, Text.isBlank c = true := fun c listed =>
  s.blank c (List.mem_append_left _ (List.mem_append_right _ listed))

/-- Neither end of what is written is blank, apart from the blanks around it. -/
theorem trim_chars (s : Spelling) :
    Text.trim s.chars = s.digits ++ (s.between ++ s.unit.symbol.toList) := by
  obtain ⟨-, ends⟩ := s.unit.symbol_spec
  obtain ⟨digit, digits, numeral⟩ := List.exists_cons_of_ne_nil s.numeral
  have first : Text.isDigit digit = true := s.decimal digit (numeral ▸ List.mem_cons_self)
  rw [chars, Text.trim_append fun c listed => s.blank c (List.mem_append_right _ listed),
    Text.trim_prepend fun c listed =>
      s.blank c (List.mem_append_left _ (List.mem_append_left _ listed))]
  refine Text.trim_of_solid (by rw [numeral]; rfl) ?_ (Text.isBlank_of_isDigit first)
    (by decide : Text.isBlank 's' = false)
  rw [List.getLast?_append, List.getLast?_append, ends]
  rfl

/-- The digits end where the blanks or the symbol begin. -/
theorem stops (s : Spelling) :
    ∃ c rest, s.between ++ s.unit.symbol.toList = c :: rest ∧ ¬Text.isDigit c = true := by
  obtain ⟨⟨first, symbol, starts, -, letter⟩, -⟩ := s.unit.symbol_spec
  cases within : s.between with
  | nil => exact ⟨first, symbol, starts, ne_true_of_eq_false letter⟩
  | cons c rest =>
      refine ⟨c, rest ++ s.unit.symbol.toList, rfl, fun digit => ?_⟩
      have blank := s.blank_between c (within ▸ List.mem_cons_self)
      exact Bool.false_ne_true ((Text.isBlank_of_isDigit digit).symm.trans blank)

/-- Reading finds the digits and the unit. -/
theorem ofChars?_chars (s : Spelling) :
    ofChars? s.chars = if isMagnitude s.amount then some ⟨s.amount, s.unit⟩ else none := by
  obtain ⟨c, rest, follows, other⟩ := s.stops
  have decimal : ∀ c ∈ s.digits, Text.isDigit c = true := s.decimal
  have digits : (s.digits ++ (s.between ++ s.unit.symbol.toList)).takeWhile Text.isDigit =
      s.digits := by
    rw [List.takeWhile_append_of_pos decimal, follows, List.takeWhile_cons_of_neg other,
      List.append_nil]
  have unit : (s.digits ++ (s.between ++ s.unit.symbol.toList)).dropWhile Text.isDigit =
      s.between ++ s.unit.symbol.toList := by
    rw [List.dropWhile_append_of_pos decimal, follows, List.dropWhile_cons_of_neg other]
  have found : TimeUnit.ofSymbol? (Text.trim (s.between ++ s.unit.symbol.toList)) =
      some s.unit := by
    rw [Text.trim_prepend s.blank_between, TimeUnit.trim_symbol]
    exact TimeUnit.ofSymbol?_eq_some_iff.mpr rfl
  unfold ofChars?
  rw [s.trim_chars]
  dsimp only
  rw [digits, unit, found, if_neg (mt List.isEmpty_iff.mp s.numeral), Text.digitsValue_eq]
  rfl

end Spelling

variable {t : Timescale} {text : String} {cs : List Char}

theorem isMagnitude_iff {n : Nat} : isMagnitude n = true ↔ n = 1 ∨ n = 10 ∨ n = 100 := by
  simp only [isMagnitude, Bool.or_eq_true, beq_iff_eq, or_assoc]

/-- The text is a way of writing the timescale. -/
def IsWritten (t : Timescale) (text : String) : Prop :=
  (t.magnitude = 1 ∨ t.magnitude = 10 ∨ t.magnitude = 100) ∧
    ∃ s : Spelling, text.toList = s.chars ∧ s.amount = t.magnitude ∧ s.unit = t.unit

/-- What is read is some way of writing an amount. -/
theorem exists_of_ofChars? (read : ofChars? cs = some t) : ∃ s : Spelling, cs = s.chars := by
  unfold ofChars? at read
  obtain ⟨before, after, blank, blank', whole⟩ := Text.exists_of_trim cs
  dsimp only at read
  split at read
  · cases read
  · next numeral =>
      split at read
      · cases read
      · next unit found =>
          obtain ⟨between, after', blank'', blank''', rest⟩ :=
            Text.exists_of_trim ((Text.trim cs).dropWhile Text.isDigit)
          rw [TimeUnit.ofSymbol?_eq_some_iff.mp found] at rest
          refine ⟨⟨before, (Text.trim cs).takeWhile Text.isDigit, between, unit, after' ++ after,
            ?_, fun none => numeral (List.isEmpty_iff.mpr none), ?_⟩, ?_⟩
          · simp only [List.mem_append]
            rintro c ((listed | listed) | (listed | listed))
            · exact blank c listed
            · exact blank'' c listed
            · exact blank''' c listed
            · exact blank' c listed
          · exact fun c listed => List.all_eq_true.mp List.all_takeWhile c listed
          · calc cs = before ++ Text.trim cs ++ after := whole
              _ = before ++ ((Text.trim cs).takeWhile Text.isDigit ++
                    (Text.trim cs).dropWhile Text.isDigit) ++ after := by
                  rw [List.takeWhile_append_dropWhile]
              _ = _ := by
                  rw [rest, Spelling.chars]
                  simp only [List.append_assoc]

theorem ofChars?_eq_some_iff : ofChars? text.toList = some t ↔ t.IsWritten text := by
  constructor
  · intro read
    obtain ⟨s, spelled⟩ := exists_of_ofChars? read
    rw [spelled, s.ofChars?_chars] at read
    split at read
    · next magnitude =>
        cases read
        exact ⟨isMagnitude_iff.mp magnitude, s, spelled, rfl, rfl⟩
    · cases read
  · rintro ⟨magnitude, s, spelled, amount, unit⟩
    rw [spelled, s.ofChars?_chars, amount, unit, if_pos (isMagnitude_iff.mpr magnitude)]

/-- The shortest form of a timescale is a way of writing it. -/
theorem isWritten_text (magnitude : isMagnitude t.magnitude = true) : t.IsWritten t.text := by
  refine ⟨isMagnitude_iff.mp magnitude, ⟨[], Nat.toDigits 10 t.magnitude, [], t.unit, [], nofun,
    Nat.toDigits_ne_nil, fun c => Nat.isDigit_of_mem_toDigits (by decide) (by decide)⟩, ?_,
      Nat.ofDigitChars_ten_toDigits, rfl⟩
  rw [Timescale.text, String.toList_append, Nat.toString_eq_repr, Nat.toList_repr]
  exact (List.append_nil _).symm

theorem parse_eq_ok_iff : parse text = .ok t ↔ t.IsWritten text := by
  rw [← ofChars?_eq_some_iff, parse]
  cases ofChars? text.toList with
  | none => exact iff_of_false nofun nofun
  | some t' => rw [Except.ok.injEq, Option.some.injEq]

/-- A text is read as a timescale exactly if it is a way of writing it, and refused unchanged if it
is no way of writing any. What is shown of a timescale is read as that timescale. -/
theorem texts_are_read_as_the_timescales_they_spell (text : String) :
    (∀ t, parse text = .ok t ↔ t.IsWritten text) ∧
      (parse text = .error ⟨text⟩ ↔ ∀ t : Timescale, ¬t.IsWritten text) ∧
      (∀ e, parse text = .error e → e.text = text) ∧
      ∀ magnitude unit t, ofParts magnitude unit = .ok t → parse t.text = .ok t := by
  refine ⟨fun t => parse_eq_ok_iff, ?_, ?_, fun magnitude unit t made => ?_⟩
  · simp only [← parse_eq_ok_iff]
    unfold parse
    cases ofChars? text.toList with
    | none => exact iff_of_true rfl nofun
    | some t => exact iff_of_false nofun fun none => none t rfl
  · intro e refused
    unfold parse at refused
    cases read : ofChars? text.toList <;> rw [read] at refused <;> cases refused
    rfl
  · unfold ofParts at made
    split at made
    · next magnitude =>
        cases made
        exact parse_eq_ok_iff.mpr (isWritten_text magnitude)
    · cases made

/-- A hundred microseconds with a zero in front and blanks of several sorts; digits that a blank
divides are refused, and ten nanoseconds are read as they are shown. -/
theorem a_hundred_microseconds_among_blanks :
    parse "\u2003 0100\tus\n" = .ok ⟨100, .micro⟩ ∧
      (parse "1 0ns" = .error ⟨"1 0ns"⟩ ∧ ∀ t : Timescale, ¬t.IsWritten "1 0ns") ∧
        parse "10ns" = .ok ⟨10, .nano⟩ := by
  obtain ⟨reads, -⟩ := texts_are_read_as_the_timescales_they_spell "\u2003 0100\tus\n"
  obtain ⟨-, refuses, -, shown⟩ := texts_are_read_as_the_timescales_they_spell "1 0ns"
  have refused : parse "1 0ns" = .error ⟨"1 0ns"⟩ := rfl
  refine ⟨(reads _).mpr ⟨.inr (.inr rfl), ⟨['\u2003', ' '], ['0', '1', '0', '0'], ['\t'], .micro,
    ['\n'], List.all_eq_true.mp rfl, by decide, List.all_eq_true.mp rfl⟩, rfl, rfl, rfl⟩,
    ⟨refused, refuses.mp refused⟩, ?_⟩
  exact shown 10 .nano ⟨10, .nano⟩ rfl

end Timescale

end DeltaCycle
