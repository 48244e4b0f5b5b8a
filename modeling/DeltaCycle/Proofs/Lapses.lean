import DeltaCycle.Proofs.Turns

/-!
# Lapses

A waiter that fails when it is resumed, in its body or because what it asks for is refused, does not
stop the round: the others are resumed, and the first error counts.
-/

set_option autoImplicit false

namespace DeltaCycle

variable {σ ω : Type}

/-- What a waiter asks for, if it waits. -/
def Act.asked : Act σ → List (Alternative σ)
  | waits _ alternatives => alternatives
  | _ => []

/-- A waiter that fails when it is resumed. -/
structure Lapse (σ : Type) where
  name : String
  /-- The arming that it was given for its next resume. -/
  arming : Arming
  error : SimError
  /-- What it asked for, if it failed because that was refused. -/
  asked : List (Alternative σ)

/-- The error of the first lapse. -/
def Lapse.verdict : List (Lapse σ) → Except SimError Unit
  | [] => .ok ()
  | lapse :: _ => .error lapse.error

namespace Simulation

variable {B : Behaviours σ ω}

/-- What the waiter of an arming asks for if it is resumed now. -/
def asked (B : Behaviours σ ω) (s : Simulation σ ω) (a : Arming) : List (Alternative σ) :=
  match (s.waiters.consume a).1 with
  | none => []
  | some (_, body, _) =>
      match act B s.kernel s.world s.outputs body with
      | none => []
      | some (done, _, _) => done.asked

theorem asked_of_claimed {s : Simulation σ ω} {a me : Arming} {body : Body σ}
    {stale : List SignalId} {waiters : WaiterTable (Body σ)} {done : Act σ} {k : Kernel} {w : ω}
    (claimed : s.waiters.consume a = (some (me, body, stale), waiters))
    (acted : act B s.kernel s.world s.outputs body = some (done, k, w)) :
    s.asked B a = done.asked := by
  rw [asked, claimed]
  dsimp only
  rw [acted]

theorem asked_of_unclaimed {s : Simulation σ ω} {a : Arming} {waiters : WaiterTable (Body σ)}
    (unclaimed : s.waiters.consume a = (none, waiters)) : s.asked B a = [] := by
  rw [asked, unclaimed]

/-- The lapse of the waiter of an arming that is resumed now with this result. -/
def lapseOf? (B : Behaviours σ ω) (s : Simulation σ ω) (a : Arming) :
    Except SimError Unit → Option (Lapse σ)
  | .ok _ => none
  | .error e =>
      some
        { name := s.waiters.name a.slot
          arming := ⟨a.slot, s.waiters.lastToken + 1⟩
          error := e
          asked := s.asked B a }

/-- The waiters that fail, in the order of resumes, until none is ready. -/
def lapses (B : Behaviours σ ω) : Nat → Simulation σ ω → List (Lapse σ)
  | 0, _ => []
  | fuel + 1, s =>
      match s.ready.pop? with
      | none => []
      | some (a, ready) =>
          match runWaiter B { s with ready } a with
          | none => []
          | some (s', result) => (s.lapseOf? B a result).toList ++ lapses B fuel s'

theorem lapses_of_idle {s : Simulation σ ω} (idle : s.ready.pop? = none) (fuel : Nat) :
    s.lapses B fuel = [] := by
  cases fuel with
  | zero => rfl
  | succ fuel => rw [lapses, idle]

theorem lapses_succ {s s₁ : Simulation σ ω} {a : Arming} {ready : Fifo Arming}
    {result : Except SimError Unit} (popped : s.ready.pop? = some (a, ready))
    (resumed : runWaiter B { s with ready } a = some (s₁, result)) (fuel : Nat) :
    s.lapses B (fuel + 1) = (s.lapseOf? B a result).toList ++ s₁.lapses B fuel := by
  simp only [lapses, popped, resumed]

theorem firstError_assoc (a b c : Except SimError Unit) :
    firstError (firstError a b) c = firstError a (firstError b c) := by
  cases a <;> rfl

/-- The first waiter to fail counts, and a failure from before counts before it. -/
theorem verdict_of_runReady {fuel : Nat} {s s' : Simulation σ ω}
    {failure failure' : Except SimError Unit}
    (ran : runReady B fuel s failure = .ok (s', failure')) :
    failure' = firstError failure (Lapse.verdict (s.lapses B fuel)) := by
  have settled (failure : Except SimError Unit) : failure = firstError failure (.ok ()) := by
    cases failure <;> rfl
  replace ran := way_of_runReady ran
  induction ran with
  | idle idle =>
      rw [lapses_of_idle idle]
      exact settled _
  | @resumed _ _ _ _ result _ _ popped resumed further ih =>
      rw [lapses_succ popped resumed, ih, firstError_assoc]
      cases result <;> rfl

end Simulation

end DeltaCycle
