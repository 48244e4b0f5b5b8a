import DeltaCycle.Activity

/-!
# Stimulus processes

A script writes given values at given ticks; a clock toggles a signal at a fixed pace,
for ever or a given number of times.
-/

set_option autoImplicit false

namespace DeltaCycle

/-- A write at a tick. -/
structure ScriptStep where
  time : Nat
  signal : SignalId
  value : Value
deriving Repr, DecidableEq, Inhabited

/-- The writes that a script has still to make, in the order of their ticks; writes of one
tick keep the order in which they were added. -/
structure Script where
  name : String
  steps : List ScriptStep := []
deriving Repr, DecidableEq, Inhabited

namespace Script

/-- Puts a step behind all that are due no later. -/
def insert (step : ScriptStep) : List ScriptStep → List ScriptStep
  | [] => [step]
  | other :: rest =>
      if other.time ≤ step.time then other :: insert step rest else step :: other :: rest

/-- Adds a write of a value to a signal at a tick. -/
def write (s : Script) (time : Nat) (signal : SignalId) (value : Value) : Script :=
  { s with steps := insert ⟨time, signal, value⟩ s.steps }

/-- Makes the writes that are due at a tick, and waits for the next one. -/
def play {ω : Type} (name : String) (now : Nat) : List ScriptStep → Activity ω (Step Script)
  | [] => .done .done
  | step :: rest =>
      if now < step.time then
        .done (.wait ⟨name, step :: rest⟩ (.delay (step.time - now)))
      else
        (Activity.setNext step.signal step.value).bind fun _ => play name now rest

/-- One resume of a script. -/
def resume {ω : Type} (s : Script) : Activity ω (Step Script) :=
  Activity.now.bind fun now => play s.name now s.steps

end Script

/-- A signal that is toggled every `half` ticks, and how often it is still toggled, if
not for ever. -/
structure Clock where
  signal : SignalId
  half : Nat
  left : Option Nat
deriving Repr, DecidableEq, Inhabited

namespace Clock

/-- Toggles the signal and waits. -/
def toggle {ω : Type} (c : Clock) : Activity ω (Step Clock) :=
  (Activity.value c.signal).bind fun level =>
    (Activity.setNext c.signal (.bool !level.truthy)).bind fun _ =>
      .done (.wait c (.delay c.half))

/-- One resume of a clock. -/
def resume {ω : Type} (c : Clock) : Activity ω (Step Clock) :=
  match c.left with
  | none => c.toggle
  | some 0 => .done .done
  | some (left + 1) => toggle { c with left := some left }

end Clock

end DeltaCycle
