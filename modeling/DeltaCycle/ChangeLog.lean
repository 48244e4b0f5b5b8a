import DeltaCycle.Hook

/-!
# Change logs

Questions about a list of committed changes in the order in which they were committed.
-/

set_option autoImplicit false

namespace DeltaCycle

namespace Change

/-- The ticks and new values of the signal of this name. -/
def history (changes : List Change) (name : String) : List (Nat × Value) :=
  (changes.filter (·.name == name)).map fun c => (c.time, c.new)

/-- The value of the signal of this name at the end of a tick, given its initial value. -/
def valueAt (changes : List Change) (name : String) (init : Value) (time : Nat) : Value :=
  match (changes.filter fun c => c.name == name && c.time ≤ time).getLast? with
  | some c => c.new
  | none => init

end Change

end DeltaCycle
