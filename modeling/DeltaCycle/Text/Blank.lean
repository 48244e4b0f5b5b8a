/-!
# Blank characters

The characters with the Unicode property `White_Space`, and text without them at
its ends.
-/

set_option autoImplicit false

namespace DeltaCycle.Text

/-- Whether the character has the property `White_Space`. -/
def isBlank (c : Char) : Bool :=
  let n := c.toNat
  (0x09 ≤ n && n ≤ 0x0D) || n == 0x20 || n == 0x85 || n == 0xA0 || n == 0x1680 ||
    (0x2000 ≤ n && n ≤ 0x200A) || n == 0x2028 || n == 0x2029 || n == 0x202F ||
    n == 0x205F || n == 0x3000

/-- The text without the blanks at both ends. -/
def trim (cs : List Char) : List Char :=
  ((cs.dropWhile isBlank).reverse.dropWhile isBlank).reverse

variable {before cs after : List Char} {first last : Char}

/-! ## Trimming -/

/-- Only blanks are taken away. -/
theorem exists_of_trim (cs : List Char) :
    ∃ before after, (∀ c ∈ before, isBlank c = true) ∧ (∀ c ∈ after, isBlank c = true) ∧
      cs = before ++ trim cs ++ after := by
  refine ⟨cs.takeWhile isBlank, ((cs.dropWhile isBlank).reverse.takeWhile isBlank).reverse,
    fun c listed => List.all_eq_true.mp List.all_takeWhile c listed, fun c listed => ?_, ?_⟩
  · exact List.all_eq_true.mp List.all_takeWhile c (List.mem_reverse.mp listed)
  · rw [trim, List.append_assoc, ← List.reverse_append, List.takeWhile_append_dropWhile,
      List.reverse_reverse, List.takeWhile_append_dropWhile]

theorem trim_append (blank : ∀ c ∈ after, isBlank c = true) : trim (cs ++ after) = trim cs := by
  have reversed : ∀ c ∈ after.reverse, isBlank c = true := fun c listed =>
    blank c (List.mem_reverse.mp listed)
  unfold trim
  rw [List.dropWhile_append]
  split
  · next empty =>
      have gone : (after ++ []).dropWhile isBlank = [] := List.dropWhile_append_of_pos blank
      rw [List.append_nil] at gone
      rw [gone, List.isEmpty_iff.mp empty]
  · rw [List.reverse_append, List.dropWhile_append_of_pos reversed]

theorem trim_prepend (blank : ∀ c ∈ before, isBlank c = true) : trim (before ++ cs) = trim cs := by
  unfold trim
  rw [List.dropWhile_append_of_pos blank]

/-- What neither begins nor ends with a blank stays as it is. -/
theorem trim_of_solid (begins : cs.head? = some first) (ends : cs.getLast? = some last)
    (solid : isBlank first = false) (solid' : isBlank last = false) : trim cs = cs := by
  obtain ⟨rest, rfl⟩ : ∃ rest, cs = first :: rest := List.head?_eq_some_iff.mp begins
  have unchanged : (first :: rest).dropWhile isBlank = first :: rest :=
    List.dropWhile_cons_of_neg (by rw [solid]; exact Bool.false_ne_true)
  obtain ⟨front, split⟩ := List.getLast?_eq_some_iff.mp ends
  rw [trim, unchanged, split, List.reverse_append, List.reverse_singleton, List.singleton_append,
    List.dropWhile_cons_of_neg (by rw [solid']; exact Bool.false_ne_true), List.reverse_cons,
    List.reverse_reverse]

end DeltaCycle.Text
