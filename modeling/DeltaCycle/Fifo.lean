/-!
# First in, first out

A sequence that grows at its end and is taken from its front, both in constant time on
average. What it holds is a list, and every operation is described by what it does to
that list.
-/

set_option autoImplicit false

namespace DeltaCycle

/-- A sequence in two parts. -/
structure Fifo (α : Type) where
  /-- The next ones to be taken, the first one first. -/
  front : List α := []
  /-- The ones added last, the last one first. -/
  back : List α := []
deriving Repr, Inhabited

namespace Fifo

variable {α : Type}

/-- The elements in the order in which they will be taken. -/
def toList (q : Fifo α) : List α := q.front ++ q.back.reverse

/-- Adds an element at the end. -/
def push (q : Fifo α) (a : α) : Fifo α := { q with back := a :: q.back }

/-- Adds elements at the end, in order. -/
def append (q : Fifo α) (as : List α) : Fifo α := { q with back := as.reverse ++ q.back }

/-- Takes the first element. -/
def pop? (q : Fifo α) : Option (α × Fifo α) :=
  match q.front with
  | a :: front => some (a, { q with front })
  | [] =>
      match q.back.reverse with
      | a :: front => some (a, { front })
      | [] => none

/-- Whether there is no element. -/
def isEmpty (q : Fifo α) : Bool := q.front.isEmpty && q.back.isEmpty

@[simp] theorem toList_empty : ({} : Fifo α).toList = [] := rfl

@[simp] theorem toList_push (q : Fifo α) (a : α) : (q.push a).toList = q.toList ++ [a] := by
  simp [push, toList]

@[simp] theorem toList_append (q : Fifo α) (as : List α) :
    (q.append as).toList = q.toList ++ as := by
  simp [append, toList]

/-- Taking an element takes the head of the list. -/
theorem toList_of_pop? {q rest : Fifo α} {a : α} (popped : q.pop? = some (a, rest)) :
    q.toList = a :: rest.toList := by
  rcases q with ⟨front, back⟩
  cases front with
  | cons b front =>
      simp only [pop?, Option.some.injEq, Prod.mk.injEq] at popped
      obtain ⟨rfl, rfl⟩ := popped
      rfl
  | nil =>
      simp only [pop?] at popped
      split at popped
      · next b front reversed =>
          simp only [Option.some.injEq, Prod.mk.injEq] at popped
          obtain ⟨rfl, rfl⟩ := popped
          simp [toList, reversed]
      · cases popped

/-- There is nothing to take exactly when the list is empty. -/
theorem pop?_eq_none_iff {q : Fifo α} : q.pop? = none ↔ q.toList = [] := by
  rcases q with ⟨front, back⟩
  cases front with
  | cons b front => simp [pop?, toList]
  | nil =>
      cases reversed : back.reverse with
      | nil => simp [pop?, toList, reversed]
      | cons b front => simp [pop?, toList, reversed]

theorem isEmpty_iff {q : Fifo α} : q.isEmpty = true ↔ q.toList = [] := by
  rcases q with ⟨front, back⟩
  cases front <;> cases back <;> simp [isEmpty, toList]

end Fifo

end DeltaCycle
