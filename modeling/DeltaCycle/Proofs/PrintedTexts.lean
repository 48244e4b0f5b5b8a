import DeltaCycle.Text.Json
import Mathlib.Data.List.TakeWhile

/-!
# Printed trees

A tree that is printed is read back. Each part of the text is read up to the place where it ends:
a numeral ends where no digit follows, a string at its closing quote, and a list of elements or
members at its bracket. A printed value is therefore followed by nothing, a comma or a closing
bracket. The strings of a tree need a content, since the text of one without is the empty string.
-/

set_option autoImplicit false

namespace DeltaCycle.Json

variable {n depth : Nat} {c : Char} {cs rest : List Char} {j : Json}

/-! ## What stands where -/

/-- What may follow a value: nothing, a comma or a closing bracket. -/
def Closes : List Char → Prop
  | [] => True
  | c :: _ => c = ',' ∨ c = ']' ∨ c = '\x7d'

theorem skipBlanks_cons (solid : isBlank c = false) : skipBlanks (c :: cs) = c :: cs := by
  rw [skipBlanks, List.dropWhile_cons_of_neg (ne_true_of_eq_false solid)]

@[simp] theorem skipBlanks_comma : skipBlanks (',' :: cs) = ',' :: cs := rfl

@[simp] theorem skipBlanks_colon : skipBlanks (':' :: cs) = ':' :: cs := rfl

@[simp] theorem skipBlanks_quote : skipBlanks ('"' :: cs) = '"' :: cs := rfl

@[simp] theorem skipBlanks_bracket : skipBlanks ('[' :: cs) = '[' :: cs := rfl

@[simp] theorem skipBlanks_brace : skipBlanks ('\x7b' :: cs) = '\x7b' :: cs := rfl

theorem isBlank_of_isDigit (digit : Text.isDigit c = true) : isBlank c = false := by
  cases blank : isBlank c with
  | false => rfl
  | true =>
      simp only [isBlank, Bool.or_eq_true, beq_iff_eq] at blank
      obtain ((rfl | rfl) | rfl) | rfl := blank <;> exact absurd digit (by decide)

theorem closes_comma : Closes (',' :: cs) := Or.inl rfl

theorem closes_bracket : Closes (']' :: cs) := Or.inr (Or.inl rfl)

theorem closes_brace : Closes ('\x7d' :: cs) := Or.inr (Or.inr rfl)

theorem Closes.stop (closes : Closes (c :: cs)) : Text.isDigit c = false := by
  obtain rfl | rfl | rfl := closes <;> rfl

/-! ## Numerals -/

/-- Only the numeral of zero begins with a zero. -/
theorem head?_toDigits (positive : 0 < n) : (Nat.toDigits 10 n).head? ≠ some '0' := by
  induction n using Nat.strongRecOn with
  | ind n ih =>
      rw [Nat.toDigits_eq_if (by decide)]
      split
      · next single =>
          have digits : ∀ n < 10, 0 < n → [n.digitChar].head? ≠ some '0' := by decide
          exact digits n single positive
      · next more =>
          have front := ih (n / 10) (by omega) (by omega)
          obtain ⟨c, cs, leading⟩ := List.exists_cons_of_ne_nil (@Nat.toDigits_ne_nil (n / 10) 10)
          rw [leading] at front ⊢
          exact front

theorem exists_leading_digit (n : Nat) :
    ∃ c cs, Nat.toDigits 10 n = c :: cs ∧ Text.isDigit c = true := by
  obtain ⟨c, cs, leading⟩ := List.exists_cons_of_ne_nil (@Nat.toDigits_ne_nil n 10)
  exact ⟨c, cs, leading, Text.isDigit_of_mem_toDigits (leading ▸ List.mem_cons_self)⟩

theorem skipFraction_of_closes (closes : Closes rest) : skipFraction rest = some (false, rest) := by
  cases rest with
  | nil => rfl
  | cons c cs => obtain rfl | rfl | rfl := closes <;> rfl

theorem readNumber_toDigits (negative : Bool) (n : Nat) (closes : Closes rest) :
    readNumber negative (Nat.toDigits 10 n ++ rest) = some (.integer negative n, rest) := by
  have digits : ∀ c ∈ Nat.toDigits 10 n, Text.isDigit c = true := fun c =>
    Text.isDigit_of_mem_toDigits
  have taken : (Nat.toDigits 10 n ++ rest).takeWhile Text.isDigit = Nat.toDigits 10 n ∧
      (Nat.toDigits 10 n ++ rest).dropWhile Text.isDigit = rest := by
    rw [List.takeWhile_append_of_pos digits, List.dropWhile_append_of_pos digits]
    cases rest with
    | nil => exact ⟨List.append_nil _, rfl⟩
    | cons c cs =>
        have stop := ne_true_of_eq_false closes.stop
        rw [List.takeWhile_cons_of_neg stop, List.dropWhile_cons_of_neg stop]
        exact ⟨List.append_nil _, rfl⟩
  unfold readNumber
  rw [taken.1, taken.2, skipFraction_of_closes closes]
  dsimp only
  split
  · next none => exact absurd none Nat.toDigits_ne_nil
  · next leading =>
      obtain rfl | positive := Nat.eq_zero_or_pos n
      · cases leading
      · exact absurd (leading ▸ rfl) (head?_toDigits positive)
  · rw [Text.digitsValue_toDigits]

/-! ## Strings -/

/-- The characters that have a short escape. -/
def named : List Char := ['"', '\\', '\x08', '\x0c', '\n', '\r', '\t']

theorem hexUnit?_control :
    ∀ n < 32, hexUnit? '0' '0' (hexDigit (n / 16)) (hexDigit (n % 16)) = some n := by
  decide

/-- An escaped character is read as its code point. -/
theorem readUnits_escaped (c : Char) (rest : List Char) :
    readUnits (escaped c ++ rest) = readUnits.unit c.toNat (readUnits rest) := by
  by_cases short : c ∈ named
  · simp only [named, List.mem_cons, List.not_mem_nil, or_false] at short
    obtain rfl | rfl | rfl | rfl | rfl | rfl | rfl := short <;> rfl
  · simp only [named, List.mem_cons, List.not_mem_nil, or_false, not_or] at short
    obtain ⟨quote, backslash, b, f, n, r, t⟩ := short
    unfold escaped
    rw [if_neg quote, if_neg backslash, if_neg b, if_neg f, if_neg n, if_neg r, if_neg t]
    by_cases control : c.toNat < 32
    · rw [if_pos control]
      simp only [List.cons_append, List.nil_append]
      rw [readUnits, hexUnit?_control c.toNat control]
    · -- The earlier patterns begin with a quote or a backslash.
      rw [if_neg control, List.singleton_append, readUnits,
        if_neg (not_or.mpr ⟨backslash, control⟩)]
      all_goals grind

theorem readUnits_quoted (content rest : List Char) :
    readUnits (content.flatMap escaped ++ '"' :: rest) = some (content.map Char.toNat, rest) := by
  induction content with
  | nil => rfl
  | cons c content ih =>
      rw [List.flatMap_cons, List.append_assoc, readUnits_escaped, ih]
      rfl

/-- The code points of characters are no halves of surrogate pairs. -/
theorem decodeUnits_toNat (content : List Char) :
    decodeUnits (content.map Char.toNat) = some content := by
  induction content with
  | nil => rfl
  | cons c content ih =>
      have whole : ¬(0xD800 ≤ c.toNat ∧ c.toNat < 0xE000) := by
        have valid := c.valid
        simp only [UInt32.isValidChar, Nat.isValidChar] at valid
        simp only [Char.toNat]
        omega
      cases content with
      | nil =>
          simp only [List.map_cons, List.map_nil, decodeUnits, if_neg whole, Char.ofNat_toNat]
      | cons d content =>
          simp only [List.map_cons] at ih ⊢
          rw [decodeUnits, if_neg (by omega), if_neg (by omega), ih, Char.ofNat_toNat]
          rfl

theorem readString_quoted (content : String) (rest : List Char) :
    readString (content.toList.flatMap escaped ++ '"' :: rest) = some (some content, rest) := by
  rw [readString, readUnits_quoted]
  dsimp only
  rw [decodeUnits_toNat, Option.map_some, String.ofList_toList]

/-! ## Trees -/

/-- A tree that its text tells: each string has a content, and no numeral has a fraction. -/
inductive Legible : Json → Prop where
  | null : Legible .null
  | bool (b : Bool) : Legible (.bool b)
  | integer (negative : Bool) (magnitude : Nat) : Legible (.integer negative magnitude)
  | string (content : String) : Legible (.string (some content))
  | array {elements : List Json} (all : ∀ element ∈ elements, Legible element) :
      Legible (.array elements)
  | object {members : List (Option String × Json)}
      (named : ∀ member ∈ members, member.1.isSome = true)
      (all : ∀ member ∈ members, Legible member.2) : Legible (.object members)

/-- A value begins with no blank and no closing bracket. -/
theorem Legible.begins (legible : j.Legible) :
    ∃ c cs, j.chars = c :: cs ∧ isBlank c = false ∧ c ≠ ']' := by
  cases legible with
  | null => exact ⟨_, _, by rw [chars], rfl, by decide⟩
  | bool b => cases b <;> exact ⟨_, _, by rw [chars], rfl, by decide⟩
  | integer negative magnitude =>
      cases negative with
      | true => exact ⟨'-', Nat.toDigits 10 magnitude, by rw [chars]; rfl, rfl, by decide⟩
      | false =>
          obtain ⟨c, cs, leading, digit⟩ := exists_leading_digit magnitude
          refine ⟨c, cs, by rw [chars]; exact leading, isBlank_of_isDigit digit, ?_⟩
          rintro rfl
          exact absurd digit (by decide)
  | string content => exact ⟨_, _, by rw [chars]; rfl, rfl, by decide⟩
  | array all => exact ⟨_, _, by rw [chars], rfl, by decide⟩
  | object named all => exact ⟨_, _, by rw [chars], rfl, by decide⟩

/-- Reading finds the tree and stops where its text does, if there is one unit of depth for each
character. -/
def IsRead (j : Json) : Prop :=
  ∀ depth rest, j.chars.length ≤ depth → Closes rest →
    readValue depth (j.chars ++ rest) = some (j, rest)

theorem exists_depth (enough : n < depth) : ∃ more, depth = more + 1 ∧ n ≤ more :=
  ⟨depth - 1, by omega, by omega⟩

theorem elementChars_cons_cons (element next : Json) (elements : List Json) :
    elementChars (element :: next :: elements) =
      element.chars ++ ',' :: elementChars (next :: elements) := by
  rw [elementChars]
  exact List.cons_ne_nil _ _

theorem memberChars_cons_cons (name : String) (value : Json) (next : Option String × Json)
    (members : List (Option String × Json)) :
    memberChars ((some name, value) :: next :: members) =
      quoted name ++ ':' :: (value.chars ++ ',' :: memberChars (next :: members)) := by
  rw [memberChars, Option.getD_some]
  exact List.cons_ne_nil _ _

/-- An array is read element by element. -/
theorem readElements_chars {elements : List Json} (nonempty : elements ≠ [])
    (all : ∀ element ∈ elements, IsRead element) (enough : (elementChars elements).length < depth) :
    readElements depth (elementChars elements ++ ']' :: rest) = some (elements, rest) := by
  induction elements generalizing depth with
  | nil => exact absurd rfl nonempty
  | cons element elements ih =>
      obtain ⟨depth, rfl, room⟩ := exists_depth enough
      have first := all element List.mem_cons_self
      cases elements with
      | nil =>
          rw [elementChars] at room ⊢
          rw [readElements, first depth _ room closes_bracket]
          rfl
      | cons next elements =>
          rw [elementChars_cons_cons, List.length_append, List.length_cons] at room
          have others := ih (List.cons_ne_nil _ _)
            (fun element listed => all element (List.mem_cons_of_mem _ listed))
            (show _ < depth by omega)
          rw [elementChars_cons_cons, List.append_assoc, List.cons_append, readElements,
            first depth _ (by omega) closes_comma]
          simp only [skipBlanks_comma, others]
          rfl

theorem readMembers_last {value : Json} (name : String)
    (read : readValue depth cs = some (value, '\x7d' :: rest)) :
    readMembers (depth + 1) (quoted name ++ ':' :: cs) = some ([(some name, value)], rest) := by
  rw [readMembers, quoted]
  simp only [List.cons_append, List.append_assoc, List.nil_append, skipBlanks_quote,
    readString_quoted, skipBlanks_colon, read]
  rfl

theorem readMembers_more {value : Json} (name : String)
    (read : readValue depth cs = some (value, ',' :: rest)) :
    readMembers (depth + 1) (quoted name ++ ':' :: cs) =
      (readMembers depth rest).map fun (members, rest) =>
        ((some name, value) :: members, rest) := by
  rw [readMembers, quoted]
  simp only [List.cons_append, List.append_assoc, List.nil_append, skipBlanks_quote,
    readString_quoted, skipBlanks_colon, read, skipBlanks_comma]

/-- An object is read member by member. -/
theorem readMembers_chars {members : List (Option String × Json)} (nonempty : members ≠ [])
    (named : ∀ member ∈ members, member.1.isSome = true)
    (all : ∀ member ∈ members, IsRead member.2) (enough : (memberChars members).length < depth) :
    readMembers depth (memberChars members ++ '\x7d' :: rest) = some (members, rest) := by
  induction members generalizing depth with
  | nil => exact absurd rfl nonempty
  | cons member members ih =>
      obtain ⟨depth, rfl, room⟩ := exists_depth enough
      obtain ⟨name?, value⟩ := member
      obtain ⟨name, rfl⟩ := Option.isSome_iff_exists.mp (named _ List.mem_cons_self)
      have first : IsRead value := all _ List.mem_cons_self
      cases members with
      | nil =>
          rw [memberChars, List.length_append, List.length_cons] at room
          rw [memberChars, List.append_assoc, List.cons_append, Option.getD_some]
          exact readMembers_last name (first depth _ (by omega) closes_brace)
      | cons next members =>
          rw [memberChars_cons_cons, List.length_append, List.length_cons, List.length_append,
            List.length_cons] at room
          have others := ih (List.cons_ne_nil _ _)
            (fun member listed => named member (List.mem_cons_of_mem _ listed))
            (fun member listed => all member (List.mem_cons_of_mem _ listed))
            (show _ < depth by omega)
          rw [memberChars_cons_cons, List.append_assoc, List.cons_append, List.append_assoc,
            List.cons_append, readMembers_more name (first depth _ (by omega) closes_comma), others]
          rfl

theorem readValue_digits (digit : Text.isDigit c = true) :
    readValue (depth + 1) (c :: cs) = readNumber false (c :: cs) := by
  rw [readValue, skipBlanks_cons (isBlank_of_isDigit digit)]
  split
  all_goals first
    | rfl
    | (rename_i same; cases same; exact absurd digit (by decide))

theorem readValue_elements (solid : isBlank c = false) (open_ : c ≠ ']') :
    readValue (depth + 1) ('[' :: c :: cs) =
      (readElements depth (c :: cs)).map fun (elements, rest) => (.array elements, rest) := by
  rw [readValue]
  simp only [skipBlanks_bracket, skipBlanks_cons solid]
  split
  · next same => cases same; exact absurd rfl open_
  · rfl

theorem readValue_members :
    readValue (depth + 1) ('\x7b' :: '"' :: cs) =
      (readMembers depth ('"' :: cs)).map fun (members, rest) => (.object members, rest) := by
  rw [readValue]
  simp only [skipBlanks_brace, skipBlanks_quote]
  rfl

theorem exists_elementChars (element : Json) (elements : List Json) :
    ∃ cs, elementChars (element :: elements) = element.chars ++ cs := by
  cases elements with
  | nil => exact ⟨[], by rw [elementChars, List.append_nil]⟩
  | cons next elements => exact ⟨_, elementChars_cons_cons element next elements⟩

theorem exists_memberChars (name : String) (value : Json)
    (members : List (Option String × Json)) :
    ∃ cs, memberChars ((some name, value) :: members) = '"' :: cs := by
  cases members with
  | nil => exact ⟨_, by rw [memberChars]; rfl⟩
  | cons next members => exact ⟨_, memberChars_cons_cons name value next members⟩

theorem isRead_integer (negative : Bool) (magnitude : Nat) :
    (integer negative magnitude).IsRead := by
  intro depth rest enough closes
  cases negative with
  | true =>
      rw [chars] at enough ⊢
      obtain ⟨depth, rfl, -⟩ := exists_depth enough
      exact readNumber_toDigits true magnitude closes
  | false =>
      have number := readNumber_toDigits false magnitude closes
      obtain ⟨c, cs, leading, digit⟩ := exists_leading_digit magnitude
      have shape : (integer false magnitude).chars = c :: cs := by rw [chars]; exact leading
      rw [leading] at number
      rw [shape] at enough ⊢
      obtain ⟨depth, rfl, -⟩ := exists_depth enough
      exact (readValue_digits digit).trans number

theorem isRead_string (content : String) : (string (some content)).IsRead := by
  intro depth rest enough closes
  rw [chars, Option.getD_some, quoted] at enough ⊢
  obtain ⟨depth, rfl, -⟩ := exists_depth enough
  rw [List.cons_append, List.append_assoc, List.cons_append, readValue, skipBlanks_quote]
  simp only [List.nil_append, readString_quoted, Option.map_some]

theorem isRead_array {elements : List Json} (legible : ∀ element ∈ elements, element.Legible)
    (all : ∀ element ∈ elements, element.IsRead) : (array elements).IsRead := by
  intro depth rest enough closes
  rw [chars] at enough ⊢
  obtain ⟨depth, rfl, room⟩ := exists_depth enough
  cases elements with
  | nil => rfl
  | cons element elements =>
      rw [List.length_append, List.length_singleton] at room
      have inner : readElements depth (elementChars (element :: elements) ++ ']' :: rest) =
          some (element :: elements, rest) := readElements_chars (List.cons_ne_nil _ _) all room
      obtain ⟨more, front⟩ := exists_elementChars element elements
      obtain ⟨c, cs, first, solid, other⟩ := (legible element List.mem_cons_self).begins
      rw [front, first, List.append_assoc, List.cons_append] at inner
      rw [List.cons_append, List.append_assoc, List.singleton_append, front, first,
        List.append_assoc, List.cons_append]
      exact (readValue_elements solid other).trans (by rw [inner]; rfl)

theorem isRead_object {members : List (Option String × Json)}
    (named : ∀ member ∈ members, member.1.isSome = true)
    (all : ∀ member ∈ members, member.2.IsRead) : (object members).IsRead := by
  intro depth rest enough closes
  rw [chars] at enough ⊢
  obtain ⟨depth, rfl, room⟩ := exists_depth enough
  cases members with
  | nil => rfl
  | cons member members =>
      rw [List.length_append, List.length_singleton] at room
      have inner : readMembers depth (memberChars (member :: members) ++ '\x7d' :: rest) =
          some (member :: members, rest) := readMembers_chars (List.cons_ne_nil _ _) named all room
      obtain ⟨name?, value⟩ := member
      obtain ⟨name, rfl⟩ := Option.isSome_iff_exists.mp (named _ List.mem_cons_self)
      obtain ⟨cs, front⟩ := exists_memberChars name value members
      rw [front, List.cons_append] at inner
      rw [List.cons_append, List.append_assoc, List.singleton_append, front, List.cons_append]
      exact readValue_members.trans (by rw [inner]; rfl)

/-- Every legible tree is read from what it is printed as, whatever closes it. -/
theorem Legible.isRead (legible : j.Legible) : j.IsRead := by
  induction legible with
  | null =>
      intro depth rest enough _
      obtain ⟨depth, rfl, -⟩ := exists_depth enough
      rfl
  | bool b =>
      intro depth rest enough _
      cases b <;>
      · obtain ⟨depth, rfl, -⟩ := exists_depth enough
        rfl
  | integer negative magnitude => exact isRead_integer negative magnitude
  | string content => exact isRead_string content
  | array legible ih => exact isRead_array legible ih
  | object named _ ih => exact isRead_object named ih

/-- A printed tree is read back. -/
theorem parse?_text (legible : j.Legible) : parse? j.text = some j := by
  have read := legible.isRead (j.chars.length + 1) [] (Nat.le_succ _) trivial
  rw [List.append_nil] at read
  rw [parse?, text, String.toList_ofList]
  simp only [read]
  rfl

end DeltaCycle.Json
