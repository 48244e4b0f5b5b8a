import DeltaCycle.Proofs.Caps
import DeltaCycle.Proofs.Pace
import DeltaCycle.Proofs.RoundLength
import DeltaCycle.Proofs.ShadowsAtRest

/-!
# Runs that return

From one cycle of a capped run to the next, the clock comes closer to the cap, or it stays and the
delta cycle comes closer to the limit. So a capped run returns if each of its rounds does, and a
round does unless processes go on spawning children in it: the limit counts rounds, not resumes.
-/

set_option autoImplicit false

namespace DeltaCycle

variable {σ ω : Type}

/-- Each resume of a process and each run of a block goes on to its end. -/
structure Behaviours.Defined (B : Behaviours σ ω) : Prop where
  resume : ∀ state k w, ((B.resume state).run k w).isSome = true
  react : ∀ body k w, ((B.react body).run k w).isSome = true

namespace Simulation

variable {B : Behaviours σ ω}

/-! ## Rounds that are met -/

/-- The simulations in which the rounds of a loop begin to resume waiters. -/
inductive Meets (B : Behaviours σ ω) (cap : Option Nat) :
    Simulation σ ω → Simulation σ ω → Prop where
  | first {s m : Simulation σ ω} (committed : s.commitPending = (m, .ok ())) : Meets B cap s m
  | later {s s' m : Simulation σ ω} {fuel : Nat}
      (turned : s.cycle B fuel cap = .ok (s', .again)) (meets : Meets B cap s' m) : Meets B cap s m

/-- Parents who want a number of children, or ever more of them, one after the other. Children are
parents who want none. -/
def parents : Behaviours (Option Nat) Unit where
  name _ := "parent"
  resume
    | none => .done (.wait none (.spawn (some 0)))
    | some (wanted + 1) => .done (.wait (some wanted) (.spawn (some 0)))
    | some 0 => .done .done
  react state := .done state

/-- A run in which the parent is alone, to be resumed under a token. -/
def alone (maxDeltas token resumes : Nat) : Simulation (Option Nat) Unit :=
  { kernel := {}
    waiters :=
      { slots := #[some ⟨"parent", some (.process none), token, none, []⟩, none]
        free := [1]
        lastToken := token + 2
        live := 1 }
    ready := { back := [⟨0, token⟩] }
    hookStarted := true
    maxDeltas
    stats := { resumes }
    world := () }

end Simulation

end DeltaCycle
