/-!
# Attempts

An attempt ends in one of three ways: with an answer, refused for a stated
cause that the caller may inspect and survive, or outside the domain of the
operation, which nothing may survive. Most operations of this library are
never outside their domain and return `Except` over their cause alone.
-/

set_option autoImplicit false

namespace DeltaCycle

/-- Why an attempt has no answer. -/
inductive Failure (ε : Type) where
  /-- The operation was refused; the caller learns the cause. -/
  | refused (cause : ε)
  /-- The arguments lie outside the domain of the operation. -/
  | undefined
deriving Repr, DecidableEq

/-- The result of an operation that may be refused or undefined. -/
abbrev Attempt (ε α : Type) : Type := Except (Failure ε) α

/-- An operation that is never undefined, seen as an attempt. -/
def Attempt.ofExcept {ε α : Type} : Except ε α → Attempt ε α
  | .ok answer => .ok answer
  | .error cause => .error (.refused cause)

/-- Restates the cause of a refusal. -/
def Attempt.restate {ε δ α : Type} (f : ε → δ) : Attempt ε α → Attempt δ α
  | .ok answer => .ok answer
  | .error (.refused cause) => .error (.refused (f cause))
  | .error .undefined => .error .undefined

/-- An attempt that has no domain to leave when `answer` is present. -/
def Attempt.ofOption {ε α : Type} : Option α → Attempt ε α
  | some answer => .ok answer
  | none => .error .undefined

end DeltaCycle
