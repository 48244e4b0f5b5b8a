import DeltaCycle.ChangeLog
import DeltaCycle.Simulation.Run

/-!
# Traced runs

A design can be run beside a second world that it does not see. A traced run keeps its
committed changes there.
-/

set_option autoImplicit false

namespace DeltaCycle

variable {σ ω α : Type}

namespace Activity

/-- The activity in a world with a second part that it leaves alone. -/
def beside (τ : Type) : Activity ω α → Activity (ω × τ) α
  | done answer => done answer
  | fail error => fail error
  | undefined => undefined
  | later go => later fun _ => (go ()).beside τ
  | ask .now go => ask .now fun reply => (go reply).beside τ
  | ask (.value signal) go => ask (.value signal) fun reply => (go reply).beside τ
  | ask (.name signal) go => ask (.name signal) fun reply => (go reply).beside τ
  | ask (.next signal) go => ask (.next signal) fun reply => (go reply).beside τ
  | ask (.setNext signal v) go => ask (.setNext signal v) fun reply => (go reply).beside τ
  | ask (.setNextBit signal index bit) go =>
      ask (.setNextBit signal index bit) fun reply => (go reply).beside τ
  | ask (.setNextSlice signal hi lo content) go =>
      ask (.setNextSlice signal hi lo content) fun reply => (go reply).beside τ
  | ask (.finish reason) go => ask (.finish reason) fun reply => (go reply).beside τ
  | ask (.world change) go =>
      ask (.world fun (w, t) => (change w, t)) fun reply => (go reply.1).beside τ

end Activity

/-- The behaviours in a world with a second part that they leave alone. -/
def Behaviours.beside (τ : Type) (B : Behaviours σ ω) : Behaviours σ (ω × τ) where
  name := B.name
  resume := fun state => (B.resume state).beside τ
  react := fun state => (B.react state).beside τ

namespace Bridge

/-- A transition of the first part of a world. -/
def onFirst {τ : Type} (f : ω → ω × α) (w : ω × τ) : (ω × τ) × α :=
  let (first, answer) := f w.1
  ((first, w.2), answer)

/-- The bridge in a world with a second part that it leaves alone. -/
def beside (τ : Type) (b : Bridge ω) : Bridge (ω × τ) where
  outputs := b.outputs
  receive := fun time => onFirst (b.receive time)
  send := fun time values => onFirst (b.send time values)
  close := onFirst b.close

end Bridge

namespace Instance

mutual

/-- The instance in a world with a second part that it leaves alone. -/
def beside (τ : Type) : Instance σ ω → Instance σ (ω × τ)
  | process state => process state
  | always block => always block
  | bridge b => bridge (b.beside τ)
  | group members => group (besideAll τ members)

/-- The instances in a world with a second part that they leave alone. -/
def besideAll (τ : Type) : List (Instance σ ω) → List (Instance σ (ω × τ))
  | [] => []
  | member :: rest => beside τ member :: besideAll τ rest

end

end Instance

namespace Simulation

/-- What a traced run gives. -/
structure TracedRun where
  /-- How the last run ended. -/
  outcome : Outcome
  finalTime : Nat
  /-- All changes in the order of their commits. -/
  changes : List Change
deriving Repr, DecidableEq, Inhabited

/-- Runs once for each duration, and gives the last outcome. -/
def runEach (B : Behaviours σ ω) (fuel : Nat) :
    Simulation σ ω → Outcome → List (Option Nat) →
    Except Stuck (Simulation σ ω × Except SimError Outcome)
  | s, outcome, [] => .ok (s, .ok outcome)
  | s, _, duration :: rest =>
      match run B fuel s duration with
      | .error stuck => .error stuck
      | .ok (s, .error e) => .ok (s, .error e)
      | .ok (s, .ok outcome) => runEach B fuel s outcome rest

/-- Builds a simulation that keeps its changes, runs it once for each duration, and ends
it. -/
def runTraced (B : Behaviours σ ω) (fuel : Nat) (kernel : Kernel)
    (instances : List (Instance σ ω)) (world : ω) (durations : List (Option Nat)) :
    Except Stuck (Except SimError TracedRun × ω) :=
  let B := B.beside (List Change)
  match build B kernel (Instance.besideAll _ instances) (world, []) with
  | .error e => .ok (.error e, world)
  | .ok s =>
      -- the last change comes first until the run is over
      let s := s.setHook (.recording fun c (w, changes) => (w, c :: changes))
      match runEach B fuel s .suspended durations with
      | .error stuck => .error stuck
      | .ok (s, .error e) => .ok (.error e, s.world.1)
      | .ok (s, .ok outcome) =>
          let finalTime := s.kernel.now
          match s.quit with
          | (.error e, (w, _)) => .ok (.error e, w)
          | (.ok _, (w, changes)) => .ok (.ok { outcome, finalTime, changes := changes.reverse }, w)

end Simulation

end DeltaCycle
