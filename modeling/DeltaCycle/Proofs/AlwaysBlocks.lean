import DeltaCycle.Proofs.TwinRuns

/-!
# Always blocks

An always block abbreviates a process: one that only waits for the sensitivity when it is resumed for
the first time, and that runs the body and then waits for the sensitivity again when it is resumed
later. Always blocks may be replaced by such processes, and nobody can tell the difference.
-/

set_option autoImplicit false

namespace DeltaCycle

variable {σ ω β γ : Type}

/-- The processes in the states `state started body` do what the always blocks of this name and this
sensitivity do. -/
structure Behaviours.Unrolls (B : Behaviours σ ω) (name : String) (sensitivity : Sensitivity)
    (state : Bool → σ → σ) : Prop where
  sensitive : sensitivity ≠ .triggers []
  named : ∀ body, B.name (state false body) = name
  /-- The first resume only waits. -/
  first : ∀ body k w, (B.resume (state false body)).run k w =
    some (.ok (.wait (state true body) sensitivity.toClause), k, w)
  /-- Every later one runs the body and waits again. -/
  later : ∀ body k w, (B.resume (state true body)).run k w =
    ((B.react body).bind fun next =>
      .done (.wait (state true next) sensitivity.toClause)).run k w

/-- An instance, and the same one or the process that it abbreviates. -/
inductive Instance.Unrolled (B : Behaviours σ ω) : Instance σ ω → Instance σ ω → Prop where
  | kept (i : Instance σ ω) : Unrolled B i i
  | block {name : String} {sensitivity : Sensitivity} {state : Bool → σ → σ}
      (unrolls : B.Unrolls name sensitivity state) (body : σ) :
      Unrolled B (.always { name, sensitivity, body }) (.process (state false body))

/-- A body, and the same one or that of the process which it abbreviates. -/
inductive Body.Unrolled (B : Behaviours σ ω) : Body σ → Body σ → Prop where
  | kept (body : Body σ) : Unrolled B body body
  | block {name : String} {sensitivity : Sensitivity} {state : Bool → σ → σ}
      (unrolls : B.Unrolls name sensitivity state) (body : σ) (started : Bool) :
      Unrolled B (.always { name, sensitivity, body } started) (.process (state started body))

namespace Simulation

variable {B : Behaviours σ ω}

/-- What wakes the echo: the source, named more than once. -/
def ear : Sensitivity := .triggers [.event ⟨0⟩, .edge ⟨⟨0⟩, .rising⟩, .event ⟨0⟩]

/-- Copies the source. -/
def copySource : Activity Unit (Option Bool) :=
  (Activity.value ⟨0⟩).bind fun value => (Activity.setNext ⟨1⟩ value).bind fun _ => .done none

/-- A clock that writes the tick to the source, and an echo, as a body and as a process. -/
def echoes : Behaviours (Option Bool) Unit where
  name
    | none => "clock"
    | some _ => "echo"
  resume
    | none => Activity.now.bind fun tick =>
        (Activity.setNext ⟨0⟩ (.int tick)).bind fun _ => .done (.wait none (.delay 2))
    | some false => .done (.wait (some true) ear.toClause)
    | some true => copySource.bind fun _ => .done (.wait (some true) ear.toClause)
  react _ := copySource

/-- Whether a session of one call is suspended with these wait lists of the source. -/
def listens (waits : WaitLists) : SessionResult (Option Bool) Unit → Bool
  | .ok (.ok (t, [.ok .suspended])) => decide ((t.kernel.signal? ⟨0⟩).map (·.waits) = some waits)
  | _ => false

end Simulation

end DeltaCycle
