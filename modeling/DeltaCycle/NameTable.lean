/-!
# Name tables

A name table gives every distinct name a number, counting from zero in the order
in which names first appear, and keeps it for good.
-/

set_option autoImplicit false

namespace DeltaCycle

/-- The distinct names seen so far, in order of first appearance. -/
structure NameTable where
  names : List String := []
deriving Repr, DecidableEq, Inhabited

namespace NameTable

/-- The number of a name that was seen before. -/
def find? (t : NameTable) (name : String) : Option Nat :=
  t.names.findIdx? (· == name)

/-- The number of a name, which is added if it was not seen before. -/
def insert (t : NameTable) (name : String) : Nat × NameTable :=
  match t.find? name with
  | some number => (number, t)
  | none => (t.names.length, ⟨t.names ++ [name]⟩)

/-- The name of `name` inside `scope`; the empty scope adds nothing. -/
def path (scope name : String) : String :=
  if scope.isEmpty then name else scope ++ "." ++ name

/-- The number of the dotted path of a name inside a scope. -/
def insertPath (t : NameTable) (scope name : String) : Nat × NameTable :=
  t.insert (path scope name)

/-- The name with this number. -/
def resolve? (t : NameTable) (number : Nat) : Option String := t.names[number]?

/-- The number of distinct names. -/
def size (t : NameTable) : Nat := t.names.length

end NameTable

end DeltaCycle
