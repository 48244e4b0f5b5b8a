import DeltaCycle.Signal
import DeltaCycle.SimError
import DeltaCycle.Text.Quoted

/-!
# Wait clauses

A clause says what a suspended process waits for. Clauses nest: a process may wait for
the first of several clauses or for all of them. The parameter `σ` is the type of
processes that a clause may spawn.
-/

set_option autoImplicit false

namespace DeltaCycle

/-- What can wake a waiter on one signal. -/
inductive Trigger where
  /-- Any change of the committed value. -/
  | event (signal : SignalId)
  | edge (edge : Edge)
deriving Repr, DecidableEq, Inhabited

namespace Trigger

/-- The watched signal. -/
def signal : Trigger → SignalId
  | event signal => signal
  | edge e => e.signal

end Trigger

/-- What a suspended process waits for. -/
inductive Clause (σ : Type) where
  /-- A change of the committed value. -/
  | event (signal : SignalId)
  | edge (edge : Edge)
  /-- A number of ticks. -/
  | delay (ticks : Nat)
  /-- The first of the clauses. -/
  | any (clauses : List (Clause σ))
  /-- All of the clauses. -/
  | join (clauses : List (Clause σ))
  /-- The completion of a child process. -/
  | spawn (child : σ)
  /-- Nothing: the next delta cycle. -/
  | noop
deriving Inhabited

/-- What re-runs an always block. -/
inductive Sensitivity where
  | triggers (triggers : List Trigger)
  /-- A fixed period. -/
  | delay (ticks : Nat)
deriving Repr, DecidableEq, Inhabited

/-- A delay of `ticks`, which must not be negative. -/
def delayOf (ticks : Int) : Except SimError Nat :=
  if ticks < 0 then .error (.invalidDelay ticks) else .ok ticks.toNat

namespace Trigger

/-- The clause that waits for the trigger. -/
def toClause {σ : Type} : Trigger → Clause σ
  | event signal => .event signal
  | edge e => .edge e

end Trigger

namespace Sensitivity

/-- The clause that waits for the sensitivity. -/
def toClause {σ : Type} : Sensitivity → Clause σ
  | triggers [trigger] => trigger.toClause
  | triggers list => .any (list.map Trigger.toClause)
  | delay ticks => .delay ticks

end Sensitivity

namespace Clause

mutual

/-- The clause over other states. -/
def map {σ τ : Type} (f : σ → τ) : Clause σ → Clause τ
  | event signal => .event signal
  | edge e => .edge e
  | delay ticks => .delay ticks
  | any clauses => .any (mapAll f clauses)
  | join clauses => .join (mapAll f clauses)
  | spawn child => .spawn (f child)
  | noop => .noop

/-- The clauses over other states. -/
def mapAll {σ τ : Type} (f : σ → τ) : List (Clause σ) → List (Clause τ)
  | [] => []
  | clause :: rest => map f clause :: mapAll f rest

end

/-! ## Written form -/

/-- A handle in written form. -/
def signalText (signal : SignalId) : String := s!"SignalId({signal.index})"

/-- The direction of an edge in written form. -/
def edgeKindText : EdgeKind → String
  | .rising => "Pos"
  | .falling => "Neg"

/-- An edge in written form. -/
def edgeText (e : Edge) : String :=
  "Edge \x7b signal: " ++ signalText e.signal ++ ", kind: " ++ edgeKindText e.kind ++ " \x7d"

variable {σ : Type}

mutual

/-- A clause in written form, given the names of processes. -/
def text (name : σ → String) : Clause σ → String
  | event signal => s!"Event({signalText signal})"
  | edge e => s!"Edge({edgeText e})"
  | delay ticks => s!"Delay({ticks})"
  | any clauses => s!"Any([{texts name clauses}])"
  | join clauses => s!"Join([{texts name clauses}])"
  | spawn child => s!"Spawn({Text.quoted (name child)})"
  | noop => "Noop"

/-- Clauses in written form with commas between them. -/
def texts (name : σ → String) : List (Clause σ) → String
  | [] => ""
  | [clause] => text name clause
  | clause :: rest => text name clause ++ ", " ++ texts name rest

end

end Clause

end DeltaCycle
